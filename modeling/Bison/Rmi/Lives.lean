import Bison.Rmi.Destruct

/-!
# What becomes of an object

From its instantiate on an object is in the table, under one id and of one class, until it is
destroyed. Two of its fields say which class that is, and a missing namespace is the global one.

- `World.SameObjects`: the same objects are there, and each stays of its class.
- `Server.KeepsObjects`: the code of the application does no more than that.
- `World.Leads`: nor do the handlers that neither file nor destroy objects, and `__destruct` is
  run by no other of them than `call`, which runs what it is told to.
-/

namespace Bison

open SortedMap

variable {μ σ : Type}

/-! ## The class of an object -/

/-- A class with this name is registered. -/
def Registry.Registered (reg : Registry μ) (ns c : Key) : Prop :=
  ∃ col, reg.lookup ns = some col ∧ (Collection.find col c).isSome

/-- The fields of an object of class `c` of namespace `ns`. -/
structure OfClass (d : Fields) (ns c : Key) : Prop where
  isClass : keyAt d CLASS = some c
  inNamespace : ∃ d', resolveNamespace d = .ok (ns, d')

/-- Every prototype says the class and the namespace that it is registered with. -/
def Registry.Headed (reg : Registry μ) : Prop :=
  ∀ ns col c p, reg.lookup ns = some col → Collection.find col c = some p → OfClass p.fields ns c

theorem resolveNamespace_of_keyAt {d : Fields} {ns : Key} (h : keyAt d NAMESPACE = some ns) :
    resolveNamespace d = .ok (ns, d) := by
  rw [resolveNamespace, keyAt_eq_some_iff.1 h]

theorem resolveNamespace_resolved {d d' : Fields} {ns : Key}
    (h : resolveNamespace d = .ok (ns, d')) : keyAt d' NAMESPACE = some ns := by
  unfold resolveNamespace at h
  split at h
  · next hns =>
    cases h
    rw [keyAt, hns]
  · cases h
    rw [keyAt_insert, if_pos rfl]
  · cases h
    rw [keyAt_insert, if_pos rfl]
  · cases h

/-- The fields go on to say the class that they said. -/
def KeepsClass (d d' : Fields) : Prop := ∀ ns c, OfClass d ns c → OfClass d' ns c

theorem KeepsClass.refl (d : Fields) : KeepsClass d d := fun _ _ h => h

theorem KeepsClass.trans {d d' d'' : Fields} (h : KeepsClass d d') (h' : KeepsClass d' d'') :
    KeepsClass d d'' :=
  fun ns c hd => h' ns c (h ns c hd)

/-- A lookup resolves the namespace, and then adds fields. -/
theorem KeepsClass.of_resolved {d d₁ d' : Fields} {ns : Key}
    (h : resolveNamespace d = .ok (ns, d₁)) (hkeeps : Keeps d₁ d') : KeepsClass d d' := by
  intro ns' c hd
  obtain ⟨d₂, hns'⟩ := hd.inNamespace
  rw [h] at hns'
  cases hns'
  have hns : keyAt d' NAMESPACE = some ns := hkeeps.keyAt _ _ (resolveNamespace_resolved h)
  exact ⟨hkeeps.keyAt _ _ ((resolveNamespace_keeps h).keyAt _ _ hd.isClass),
    d', resolveNamespace_of_keyAt hns⟩

/-- Another field is written. -/
theorem KeepsClass.insert {name : Key} (hclass : name ≠ CLASS) (hns : name ≠ NAMESPACE) (v : Value)
    (d : Fields) : KeepsClass d (insert name v d) := by
  intro ns c hd
  refine ⟨?_, ?_⟩
  · rw [keyAt_insert, if_neg hclass.symm]
    exact hd.isClass
  · obtain ⟨d', hd'⟩ := hd.inNamespace
    unfold resolveNamespace at hd' ⊢
    rw [lookup_insert_ne v hns.symm]
    split at hd' <;> cases hd' <;> exact ⟨_, rfl⟩

theorem walkStart_resolved {reg : Registry μ} {d d' : Fields} {r : Option (Collection μ × Key)}
    (h : walkStart reg d = .ok (r, d')) :
    ∃ ns d₁, resolveNamespace d = .ok (ns, d₁) ∧ Keeps d₁ d' := by
  unfold walkStart at h
  cases hns : resolveNamespace d with
  | error e =>
    rw [hns, Decoder.error_bind] at h
    cases h
  | ok resolved =>
    obtain ⟨ns, d₁⟩ := resolved
    refine ⟨ns, d₁, rfl, ?_⟩
    simp only [hns, Decoder.ok_bind] at h
    cases hcol : reg.lookup ns with
    | none =>
      simp only [hcol] at h
      cases h
      exact .refl _
    | some col =>
      cases hclass : asKey CLASS d₁ with
      | error e =>
        simp only [hcol, hclass, Decoder.error_bind] at h
        cases h
      | ok found =>
        simp only [hcol, hclass, Decoder.ok_bind] at h
        cases h
        exact (asKey_keeps hclass).1

theorem afterThrow_keepsClass (d : Fields) : KeepsClass d (afterThrow d) := by
  unfold afterThrow
  cases h : resolveNamespace d with
  | ok r => exact .of_resolved h (.refl r.2)
  | error e => exact .refl d

/-- A lookup that changes the object resolves its namespace first, and then adds. -/
theorem findField_resolved {reg : Registry μ} {name : Key} {d d' : Fields} {r : Option Value}
    (h : findField reg name d = .ok (r, d')) :
    d' = d ∨ ∃ ns d₁, resolveNamespace d = .ok (ns, d₁) ∧ Keeps d₁ d' := by
  cases hown : d.lookup name with
  | some v =>
    unfold findField at h
    rw [hown] at h
    cases h
    exact .inl rfl
  | none =>
    rw [findField_of_none reg hown] at h
    cases hstart : walkStart reg d with
    | error e =>
      rw [hstart, Decoder.error_bind] at h
      cases h
    | ok w =>
      rw [hstart, Decoder.ok_bind] at h
      rcases w with ⟨_ | ⟨col, c⟩, d₁⟩
      · cases h
        exact .inr (walkStart_resolved hstart)
      · obtain ⟨ns, d₂, hns, hadds⟩ := walkStart_resolved hstart
        simp only at h
        split at h
        · cases h
        · cases h
          exact .inr ⟨ns, d₂, hns, hadds⟩
        · cases h
          exact .inr ⟨ns, d₂, hns, hadds.trans (insertNew_keeps _ _ _)⟩

theorem findField_keepsClass {reg : Registry μ} {name : Key} {d d' : Fields} {r : Option Value}
    (h : findField reg name d = .ok (r, d')) : KeepsClass d d' := by
  rcases findField_resolved h with rfl | ⟨ns, d₁, hns, hkeeps⟩
  · exact .refl d'
  · exact .of_resolved hns hkeeps

theorem findMethod_resolved {reg : Registry μ} {name : Key} {methods : List (Key × μ)}
    {d : Fields} {r : (Option μ × List (Key × μ)) × Fields}
    (h : findMethod reg name methods d = .ok r) :
    r.2 = d ∨ ∃ ns d₁, resolveNamespace d = .ok (ns, d₁) ∧ Keeps d₁ r.2 := by
  unfold findMethod at h
  cases hown : methods.lookup name with
  | some m =>
    rw [hown] at h
    cases h
    exact .inl rfl
  | none =>
    simp only [hown] at h
    cases hstart : walkStart reg d with
    | error e =>
      rw [hstart, Decoder.error_bind] at h
      cases h
    | ok w =>
      rw [hstart, Decoder.ok_bind] at h
      rcases w with ⟨_ | ⟨col, c⟩, d'⟩
      · cases h
        exact .inr (walkStart_resolved hstart)
      · simp only at h
        split at h <;> cases h <;> exact .inr (walkStart_resolved hstart)

theorem findMethod_keepsClass {reg : Registry μ} {name : Key} {methods : List (Key × μ)}
    {d : Fields} {r : (Option μ × List (Key × μ)) × Fields}
    (h : findMethod reg name methods d = .ok r) : KeepsClass d r.2 := by
  rcases findMethod_resolved h with heq | ⟨ns, d₁, hns, hkeeps⟩
  · rw [heq]
    exact .refl d
  · exact .of_resolved hns hkeeps

/-- A field that is not one of the class is written. -/
theorem writeField_keepsClass {reg : Registry μ} {name : Key} (hclass : name ≠ CLASS)
    (hns : name ≠ NAMESPACE) {v : Value} {d d' : Fields}
    (h : writeField reg name v d = .ok ((), d')) : KeepsClass d d' := by
  obtain ⟨old, d₁, hsub, hput⟩ := Decoder.bind_eq_ok.1 h
  obtain ⟨found, d₂, hfind, hadd⟩ := Decoder.bind_eq_ok.1 hsub
  cases hput
  have hkeeps := findField_keepsClass hfind
  cases found with
  | some v =>
    cases hadd
    exact hkeeps.trans (.insert hclass hns _ _)
  | none =>
    cases hadd
    exact hkeeps.trans ((KeepsClass.insert hclass hns _ _).trans (.insert hclass hns _ _))

namespace Instance

/-- The object is of this class. -/
def IsA (obj : Instance μ) (ns c : Key) : Prop := OfClass obj.fields ns c

/-- The object is of some class. -/
def Headed (obj : Instance μ) : Prop := ∃ ns c, obj.IsA ns c

/-- The object goes on to be of some class, of the same one if that is registered. -/
structure Stays (reg : Registry μ) (obj obj' : Instance μ) : Prop where
  headed : obj.Headed → obj'.Headed
  same : ∀ ns c, reg.Registered ns c → obj.IsA ns c → obj'.IsA ns c

variable {reg : Registry μ} {obj obj' obj'' : Instance μ}

theorem Stays.refl (obj : Instance μ) : Stays reg obj obj := ⟨fun h => h, fun _ _ _ h => h⟩

theorem Stays.trans (h : Stays reg obj obj') (h' : Stays reg obj' obj'') : Stays reg obj obj'' :=
  ⟨fun hobj => h'.headed (h.headed hobj),
    fun ns c hreg hobj => h'.same ns c hreg (h.same ns c hreg hobj)⟩

theorem Stays.of_keepsClass (h : KeepsClass obj.fields obj'.fields) : Stays reg obj obj' :=
  ⟨fun ⟨ns, c, hobj⟩ => ⟨ns, c, h ns c hobj⟩, fun ns c _ hobj => h ns c hobj⟩

end Instance

/-! ## The table -/

/-- The same objects are there, each of its class. -/
structure World.SameObjects (reg : Registry μ) (w w' : World μ σ) : Prop where
  ids : w'.ids = w.ids
  drawn : w.drawn ≤ w'.drawn
  kept : ∀ id obj, w.ctx.objects.lookup id = some obj →
    ∃ obj', w'.ctx.objects.lookup id = some obj' ∧ obj.Stays reg obj'
  absent : ∀ id, w.ctx.objects.lookup id = none → w'.ctx.objects.lookup id = none

namespace World.SameObjects

variable {reg : Registry μ} {w w' w'' : World μ σ}

theorem of_objects (hids : w'.ids = w.ids) (hdrawn : w.drawn ≤ w'.drawn)
    (hobjects : w'.ctx.objects = w.ctx.objects) : w.SameObjects reg w' :=
  ⟨hids, hdrawn, fun _ obj h => ⟨obj, hobjects ▸ h, .refl obj⟩, fun _ h => hobjects ▸ h⟩

theorem refl (w : World μ σ) : w.SameObjects reg w := of_objects rfl (le_refl _) rfl

theorem trans (h : w.SameObjects reg w') (h' : w'.SameObjects reg w'') : w.SameObjects reg w'' := by
  refine ⟨h'.ids.trans h.ids, h.drawn.trans h'.drawn, fun id obj hobj => ?_, fun id hnone =>
    h'.absent id (h.absent id hnone)⟩
  obtain ⟨obj', hobj', hstays⟩ := h.kept id obj hobj
  obtain ⟨obj'', hobj'', hstays'⟩ := h'.kept id obj' hobj'
  exact ⟨obj'', hobj'', hstays.trans hstays'⟩

theorem has (h : w.SameObjects reg w') (id : Key) : w'.ctx.Has id ↔ w.ctx.Has id := by
  unfold Context.Has
  cases hobj : w.ctx.objects.lookup id with
  | none => rw [h.absent id hobj]
  | some obj =>
    obtain ⟨obj', hobj', -⟩ := h.kept id obj hobj
    rw [hobj']
    exact Iff.rfl

/-- The object that a program has worked on goes back into the table. -/
theorem store (h : w.SameObjects reg w') {id : Key} {obj obj' : Instance μ}
    (hobj : w.ctx.objects.lookup id = some obj) (hstays : obj.Stays reg obj') :
    w.SameObjects reg { w' with ctx := w'.ctx.storeObject id obj' } := by
  obtain ⟨obj₁, hobj₁, -⟩ := h.kept id obj hobj
  have hlookup (id' : Key) : (w'.ctx.storeObject id obj').objects.lookup id' =
      if id' = id then some obj' else w'.ctx.objects.lookup id' := by
    rw [Context.lookup_storeObject, hobj₁]
    rfl
  refine ⟨h.ids, h.drawn, fun id' o ho => ?_, fun id' ho => ?_⟩
  · simp only [hlookup]
    split_ifs with hid
    · subst hid
      rw [hobj] at ho
      cases ho
      exact ⟨obj', rfl, hstays⟩
    · exact h.kept id' o ho
  · have hne : id' ≠ id := by
      rintro rfl
      rw [hobj] at ho
      cases ho
    simp only [hlookup, if_neg hne]
    exact h.absent id' ho

end World.SameObjects

/-! ## Programs that destroy nothing -/

/-- An instantiate is reported, which has filed an object under this id. -/
def SessionEffect.Reports (e : SessionEffect) (id : Key) : Prop :=
  ∃ env klass, e = .sent (responseEnvelope env OP_INSTANTIATE (instantiateReply id klass))

/-- The objects stay, no object is reported, and `__destruct` is run only where it `may`. -/
structure World.Leads (reg : Registry μ) (may : Option Key → Prop) (w : World μ σ)
    (trace : List SessionEffect) (w' : World μ σ) : Prop where
  same : w.SameObjects reg w'
  quiet : ∀ object, .ran object HOOK_DESTRUCT ∈ trace → may object
  unreported : ∀ e ∈ trace, ∀ id, ¬ e.Reports id

abbrev Leads (reg : Registry μ) (may : Option Key → Prop) {α : Type} (p : ServerM μ σ α) : Prop :=
  Program.Keeps (World.Leads reg may) p

/-- Programs on an object, which stays of its class. -/
abbrev LeadsAround (reg : Registry μ) (may : Option Key → Prop) {α : Type} (p : ObjectM μ σ α) :
    Prop :=
  Program.Keeps (fun s trace s' => s.2.Leads reg may trace s'.2 ∧ s.1.Stays reg s'.1) p

variable {reg : Registry μ} {may : Option Key → Prop}

theorem World.SameObjects.leads {w w' : World μ σ} (h : w.SameObjects reg w') :
    w.Leads reg may [] w' :=
  ⟨h, fun _ hran => (List.not_mem_nil hran).elim, fun _ he => (List.not_mem_nil he).elim⟩

theorem World.Leads.refl (w : World μ σ) : w.Leads reg may [] w := (World.SameObjects.refl w).leads

theorem World.Leads.trans {w w' w'' : World μ σ} {trace trace' : List SessionEffect}
    (h : w.Leads reg may trace w') (h' : w'.Leads reg may trace' w'') :
    w.Leads reg may (trace ++ trace') w'' := by
  refine ⟨h.same.trans h'.same, fun object hran => ?_, fun e he => ?_⟩
  · exact (List.mem_append.1 hran).elim (h.quiet object) (h'.quiet object)
  · exact (List.mem_append.1 he).elim (h.unreported e) (h'.unreported e)

theorem leads_composes (reg : Registry μ) (may : Option Key → Prop) :
    Program.Composes (World.Leads (σ := σ) reg may) :=
  ⟨.refl, .trans⟩

theorem leadsAround_composes (reg : Registry μ) (may : Option Key → Prop) : Program.Composes
    fun (s : Instance μ × World μ σ) trace s' => s.2.Leads reg may trace s'.2 ∧
      s.1.Stays reg s'.1 :=
  ⟨fun s => ⟨.refl s.2, .refl s.1⟩, fun h h' => ⟨h.1.trans h'.1, h.2.trans h'.2⟩⟩

/-! ## What is sent -/

/-- The effect is neither a report nor a `__destruct`. -/
def SessionEffect.Plain (e : SessionEffect) : Prop :=
  (∀ object, e ≠ .ran object HOOK_DESTRUCT) ∧ ∀ id, ¬ e.Reports id

theorem SessionEffect.Plain.leads {e : SessionEffect} (he : e.Plain) (w : World μ σ) :
    w.Leads reg may [e] w := by
  refine ⟨.refl w, fun object hran => ?_, fun e' he' => ?_⟩
  · exact (he.1 object (List.mem_singleton.1 hran).symm).elim
  · rw [List.mem_singleton.1 he']
    exact he.2

theorem response_plain (env : Envelope) {op : Key} (hop : op ≠ OP_INSTANTIATE) (payload : Fields) :
    (SessionEffect.sent (responseEnvelope env op payload)).Plain := by
  refine ⟨fun object hran => SessionEffect.noConfusion hran, fun id => ?_⟩
  rintro ⟨env', klass, h⟩
  exact hop (congrArg Envelope.op (SessionEffect.sent.inj h))

theorem error_plain (env : Envelope) (op code : Key) (message : Text) :
    (SessionEffect.sent (errorEnvelope env op code message)).Plain := by
  refine ⟨fun object hran => SessionEffect.noConfusion hran, fun id => ?_⟩
  rintro ⟨env', klass, h⟩
  have herror := congrArg (fun env => env.error.lookup FIELD_ERROR_CODE) (SessionEffect.sent.inj h)
  simp only [errorEnvelope, errorPayload, responseEnvelope] at herror
  rw [lookup_insert_ne _ (by decide), lookup_insert_self] at herror
  cases herror

theorem sendResponse_leads (env : Envelope) {op : Key} (hop : op ≠ OP_INSTANTIATE)
    (payload : Fields) : Leads reg may (sendResponse env op payload : ServerM μ σ Unit) :=
  .emit (response_plain env hop payload).leads

theorem sendError_leads (env : Envelope) (op code : Key) (message : Text) :
    Leads reg may (sendError env op code message : ServerM μ σ Unit) :=
  .emit (error_plain env op code message).leads

/-! ## Programs on an object -/

/-- A lookup that adds fields to the object, which it also may where it throws. -/
theorem onFields_leads {α : Type} {lookup : DynamicM α}
    (h : ∀ d a d', lookup d = .ok (a, d') → KeepsClass d d') :
    LeadsAround reg may (onFields lookup : ObjectM μ σ α) := by
  refine .ofState fun (obj, w) => ?_
  simp only
  cases hrun : lookup obj.fields with
  | ok r => exact ⟨.refl w, .of_keepsClass (h _ _ _ hrun)⟩
  | error e => exact ⟨.refl w, .of_keepsClass (afterThrow_keepsClass _)⟩

theorem findMethodM_leads (name : Key) :
    LeadsAround reg may (findMethodM reg name : ObjectM μ σ _) := by
  refine .ofState fun (obj, w) => ?_
  simp only
  cases hrun : findMethod reg name obj.methods obj.fields with
  | ok r => exact ⟨.refl w, .of_keepsClass (findMethod_keepsClass hrun)⟩
  | error e => exact ⟨.refl w, .of_keepsClass (afterThrow_keepsClass _)⟩

/-- A program on an object that is in the table. -/
theorem onObject_leads {α : Type} {p : ObjectM μ σ α} (hp : LeadsAround reg may p) {id : Key}
    {obj : Instance μ} {w : World μ σ} (hobj : w.ctx.objects.lookup id = some obj) :
    w.Leads reg may (onObject id obj p w).trace (onObject id obj p w).state := by
  have hleads := hp (obj, w)
  unfold onObject
  rcases hrun : p (obj, w) with ⟨result, trace, obj', w'⟩
  rw [hrun] at hleads
  exact ⟨hleads.1.same.store hobj hleads.2, hleads.1.quiet, hleads.1.unreported⟩

/-- A program on an object that is not in the table yet. -/
theorem withNewObject_leads {α : Type} {p : ObjectM μ σ α} (hp : LeadsAround reg may p)
    (obj : Instance μ) (w : World μ σ) :
    w.Leads reg may (withNewObject obj p w).trace (withNewObject obj p w).state ∧
      ∀ a obj', (withNewObject obj p w).result = .ok (a, obj') → obj.Stays reg obj' := by
  have hleads := hp (obj, w)
  unfold withNewObject
  rcases hrun : p (obj, w) with ⟨e | a, trace, obj', w'⟩ <;> rw [hrun] at hleads
  · exact ⟨hleads.1, fun _ _ h => by cases h⟩
  · refine ⟨hleads.1, fun a' obj'' h => ?_⟩
    cases h
    exact hleads.2

theorem withObject_leads {env : Envelope} {op : Key} {p : Instance μ → ServerM μ σ Unit}
    {w : World μ σ} (h : ∀ obj, w.ctx.objects.lookup env.objectId = some obj →
      w.Leads reg may (p obj w).trace (p obj w).state) :
    w.Leads reg may (withObject env op p w).trace (withObject env op p w).state := by
  cases hobj : w.ctx.objects.lookup env.objectId with
  | none =>
    rw [withObject_missing hobj]
    exact sendError_leads _ _ _ _ w
  | some obj =>
    rw [withObject_found hobj]
    exact h obj hobj

/-- The code of the application puts no object into the table and takes none out, leaves the
classes of the objects there are, and makes objects of some class. -/
structure Server.KeepsObjects (srv : Server μ σ) : Prop where
  headed : srv.registry.Headed
  impl : ∀ m params (s : Instance μ × World μ σ),
    s.2.SameObjects srv.registry (srv.impl m params s).2.2 ∧
      s.1.Stays srv.registry (srv.impl m params s).2.1
  onCreateObject : ∀ ns klass (w : World μ σ),
    w.SameObjects srv.registry (srv.onCreateObject ns klass w).2 ∧
      ∀ obj, (srv.onCreateObject ns klass w).1 = .ok (some obj) → obj.Headed
  authenticate : ∀ authenticate, srv.authModule = some authenticate →
    ∀ payload (w : World μ σ), w.SameObjects srv.registry (authenticate payload w).2
  onAuthenticated : ∀ identity (w : World μ σ),
    w.SameObjects srv.registry (srv.onAuthenticated identity w).2

section Hooks

variable {srv : Server μ σ} (hsrv : srv.KeepsObjects)

include hsrv

theorem invoke_leads {self : Option Key} {name : Key} (hname : name = HOOK_DESTRUCT → may self)
    (m : μ) (params : Fields) :
    LeadsAround srv.registry may (invoke srv.impl self name m params) := by
  refine (leadsAround_composes _ _).bind (.emit fun s => ⟨⟨.refl s.2, ?_, ?_⟩, .refl s.1⟩) fun _ =>
    .ofState fun s => ⟨(hsrv.impl m params s).1.leads, (hsrv.impl m params s).2⟩
  · intro object hran
    cases List.mem_singleton.1 hran
    exact hname rfl
  · intro e he id
    rw [List.mem_singleton.1 he]
    rintro ⟨env, klass, h⟩
    cases h

theorem call_leads {self : Option Key} {name : Key} (hname : name = HOOK_DESTRUCT → may self)
    (params : Fields) :
    LeadsAround srv.registry may (call srv.registry srv.impl self name params) := by
  have hcomp := leadsAround_composes (μ := μ) (σ := σ) srv.registry may
  refine hcomp.bind (findMethodM_leads _) fun found => ?_
  cases found with
  | some m => exact invoke_leads hsrv hname m params
  | none =>
    refine hcomp.bind (findMethodM_leads _) fun fallback => ?_
    cases fallback with
    | some m => exact invoke_leads hsrv (fun h => absurd h (by decide)) m _
    | none => exact hcomp.throw _

theorem runHook_leads {self : Option Key} {hook : Key} (hhook : hook = HOOK_DESTRUCT → may self)
    (params : Fields) :
    LeadsAround srv.registry may (runHook srv.registry srv.impl self hook params) := by
  have hcomp := leadsAround_composes (μ := μ) (σ := σ) srv.registry may
  refine hcomp.bind (findMethodM_leads _) fun found => ?_
  cases found with
  | some m =>
    exact hcomp.bind (.attempt (call_leads hsrv hhook params)) fun r =>
      hcomp.pure _
  | none => exact hcomp.pure none

end Hooks

/-! ## Clear -/

theorem OfClass.unique {d : Fields} {ns ns' c c' : Key} (h : OfClass d ns c)
    (h' : OfClass d ns' c') : ns' = ns ∧ c' = c := by
  obtain ⟨d₁, hns⟩ := h.inNamespace
  obtain ⟨d₂, hns'⟩ := h'.inNamespace
  rw [hns] at hns'
  cases hns'
  have hclass := h'.isClass
  rw [h.isClass] at hclass
  cases hclass
  exact ⟨rfl, rfl⟩

theorem ofClass_instantiate (ns c : Key) : OfClass (instantiate ns c) ns c := by
  unfold instantiate
  simp only
  split_ifs with hns
  · refine ⟨?_, _, resolveNamespace_of_keyAt (by rw [keyAt_insert, if_pos rfl])⟩
    rw [keyAt_insert, if_neg CLASS_ne_NAMESPACE]
    rfl
  · rw [not_not] at hns
    subst hns
    exact ⟨rfl, _, rfl⟩

/-- `clear` finds the namespace that the object is in, or an empty field in its place. -/
theorem OfClass.findField_namespace {d : Fields} {ns c : Key} (h : OfClass d ns c)
    (reg : Registry μ) : ∃ declared d', findField reg NAMESPACE d = .ok (some declared, d') ∧
      (declared = .key ns ∨ declared = .monostate ∧ ns = 0) := by
  obtain ⟨d', hns⟩ := h.inNamespace
  unfold resolveNamespace at hns
  split at hns
  · next ns' hown =>
    cases hns
    exact ⟨.key ns, d, by rw [findField, hown], .inl rfl⟩
  · next hown =>
    cases hns
    refine ⟨_, _, findField_namespace_none reg hown ?_, .inl rfl⟩
    rw [h.isClass]
    rfl
  · next hown =>
    cases hns
    exact ⟨.monostate, d, by rw [findField, hown], .inr ⟨rfl, rfl⟩⟩
  · cases hns

namespace Instance

variable {reg : Registry μ} {obj fresh : Instance μ} {ns c : Key}

theorem Stays.of_isA (hobj : obj.IsA ns c) (hfresh : fresh.Headed)
    (hsame : reg.Registered ns c → fresh.IsA ns c) : Stays reg obj fresh := by
  refine ⟨fun _ => hfresh, fun ns' c' hreg hobj' => ?_⟩
  obtain ⟨rfl, rfl⟩ := hobj.unique hobj'
  exact hsame hreg

end Instance

section Handlers

variable {srv : Server μ σ} (hsrv : srv.KeepsObjects)

theorem resetObject_world : Program.Keeps (fun (s : Instance μ × World μ σ) trace s' =>
    s.2.Leads srv.registry may trace s'.2) srv.resetObject := by
  have hcomp : Program.Composes fun (s : Instance μ × World μ σ) trace s' =>
      s.2.Leads srv.registry may trace s'.2 := ⟨fun s => .refl s.2, .trans⟩
  have hfields {α : Type} (lookup : DynamicM α) : Program.Keeps
      (fun (s : Instance μ × World μ σ) trace s' => s.2.Leads srv.registry may trace s'.2)
      (onFields lookup) := by
    refine .ofState fun s => ?_
    simp only
    split <;> exact .refl s.2
  exact hcomp.bind (hfields _) fun _ => hcomp.bind (hfields _) fun _ => .modify fun s => .refl s.2

include hsrv

theorem resetObject_leads : LeadsAround srv.registry may srv.resetObject := by
  refine fun (obj, w) => ⟨resetObject_world (obj, w), ?_⟩
  by_cases hheaded : obj.Headed
  · obtain ⟨ns, c, hobj⟩ := hheaded
    obtain ⟨declared, fields, hfind, hns⟩ := hobj.findField_namespace srv.registry
    have hclass : onFields (asKey CLASS) (obj, w) = ⟨.ok c, [], (obj, w)⟩ :=
      onFields_run (asKey_of_keyAt hobj.isClass) w
    have hnamespace : onFields (findField srv.registry NAMESPACE) (obj, w) = _ :=
      onFields_run hfind w
    rw [Server.resetObject, Program.bind_ok hclass, Program.bind_ok hnamespace]
    cases hcol : srv.registry.lookup ns with
    | none =>
      have hstays : obj.Stays srv.registry ⟨instantiate 0 c, []⟩ := by
        refine .of_isA hobj ⟨0, c, ofClass_instantiate 0 c⟩ fun ⟨col, hcol', _⟩ => ?_
        rw [hcol] at hcol'
        cases hcol'
      rcases hns with rfl | ⟨rfl, rfl⟩ <;> simpa only [Program.modify, hcol] using hstays
    | some col =>
      cases hproto : Collection.find col c with
      | none =>
        have hstays : obj.Stays srv.registry ⟨instantiate ns c, []⟩ :=
          .of_isA hobj ⟨ns, c, ofClass_instantiate ns c⟩ fun _ => ofClass_instantiate ns c
        rcases hns with rfl | ⟨rfl, rfl⟩ <;> simpa only [Program.modify, hcol, hproto] using hstays
      | some proto =>
        have hfresh := hsrv.headed ns col c proto hcol hproto
        have hstays : obj.Stays srv.registry ⟨proto.fields, proto.methods⟩ :=
          .of_isA hobj ⟨ns, c, hfresh⟩ fun _ => hfresh
        rcases hns with rfl | ⟨rfl, rfl⟩ <;> simpa only [Program.modify, hcol, hproto] using hstays
  · exact ⟨fun hobj => (hheaded hobj).elim, fun ns c _ hobj => (hheaded ⟨ns, c, hobj⟩).elim⟩

theorem handleClear_leads (env : Envelope) : Leads srv.registry may (srv.handleClear env) := by
  have hcomp := leadsAround_composes (μ := μ) (σ := σ) srv.registry may
  refine fun w => withObject_leads fun obj hobj =>
    (leads_composes _ _).bind_at (onObject_leads ?_ hobj)
    fun _ _ => sendResponse_leads _ (by decide) _
  exact hcomp.bind (resetObject_leads hsrv) fun _ =>
    hcomp.bind (runHook_leads hsrv (fun h => absurd h (by decide)) _) fun _ => hcomp.pure _

/-! ## The other handlers -/

theorem handleConnect_leads (env : Envelope) : Leads srv.registry may (srv.handleConnect env) := by
  have hcomp := leads_composes (μ := μ) (σ := σ) srv.registry may
  have hsend : Leads srv.registry may
    (sendResponse env OP_CONNECT connectReply : ServerM μ σ Unit) :=
    sendResponse_leads env (by decide) connectReply
  unfold Server.handleConnect
  split
  · exact hsend
  · next authenticate hauth =>
    refine hcomp.bind (.ofState fun w => (hsrv.authenticate authenticate hauth env.payload w).leads)
      fun (accepted, identity) => ?_
    have hplain : SessionEffect.authenticated.Plain := by
      refine ⟨fun object h => SessionEffect.noConfusion h, fun id => ?_⟩
      rintro ⟨env', klass, h⟩
      cases h
    cases accepted with
    | true =>
      exact hcomp.bind (.emit hplain.leads) fun _ =>
        hcomp.bind (.ofState fun w => (hsrv.onAuthenticated identity w).leads) fun _ => hsend
    | false => exact sendError_leads _ _ _ _

omit hsrv in
theorem handleDescribe_leads (env : Envelope) :
    Leads srv.registry may (srv.handleDescribe env) := by
  have hcomp := leads_composes (μ := μ) (σ := σ) srv.registry may
  refine hcomp.bind (hcomp.lift _) fun (requested, _) => ?_
  simp only
  split
  · exact sendResponse_leads _ (by decide) _
  · split
    · exact sendResponse_leads _ (by decide) _
    · exact sendError_leads _ _ _ _

omit hsrv in
theorem applyPatch_leads (patch : Fields) :
    LeadsAround srv.registry may (srv.applyPatch patch : ObjectM μ σ Unit) := by
  refine (leadsAround_composes _ _).forEach fun entry hentry => onFields_leads fun d a d' hrun => ?_
  have hkey : isPatchKey entry.1 = true := (List.mem_filter.1 hentry).2
  simp only [isPatchKey, decide_eq_true_eq] at hkey
  exact writeField_keepsClass hkey.1 hkey.2.2 hrun

theorem handleSet_leads (env : Envelope) : Leads srv.registry may (srv.handleSet env) := by
  have hcomp := leadsAround_composes (μ := μ) (σ := σ) srv.registry may
  refine fun w => withObject_leads fun obj hobj =>
    (leads_composes _ _).bind_at (onObject_leads ?_ hobj)
    fun patched _ => ?_
  · refine hcomp.bind (runHook_leads hsrv (fun h => absurd h (by decide)) _) fun ran => ?_
    rcases ran with _ | what | patched
    · exact hcomp.bind (applyPatch_leads _) fun _ => hcomp.pure _
    · exact hcomp.pure _
    · exact hcomp.bind (applyPatch_leads _) fun _ => hcomp.pure _
  · cases patched with
    | error what => exact sendError_leads _ _ _ _
    | ok u => exact sendResponse_leads _ (by decide) _

omit hsrv in
theorem project_leads (keys : List Key) (result : Fields) :
    LeadsAround srv.registry may (srv.project keys result : ObjectM μ σ Fields) := by
  have hcomp := leadsAround_composes (μ := μ) (σ := σ) srv.registry may
  induction keys generalizing result with
  | nil => exact hcomp.pure result
  | cons k keys ih =>
    refine hcomp.bind (onFields_leads fun _ _ _ => findField_keepsClass) fun found => ?_
    cases found with
    | none => exact ih result
    | some v => exact hcomp.bind (hcomp.lift _) fun r => ih r.2

theorem handleGet_leads (env : Envelope) : Leads srv.registry may (srv.handleGet env) := by
  have hcomp := leadsAround_composes (μ := μ) (σ := σ) srv.registry may
  refine fun w => withObject_leads fun obj hobj =>
    (leads_composes _ _).bind_at (onObject_leads ?_ hobj)
    fun _ _ => sendResponse_leads _ (by decide) _
  refine hcomp.bind ?_ fun result =>
    hcomp.bind (runHook_leads hsrv (fun h => absurd h (by decide)) _) fun ran => ?_
  · cases (env.payload.map Prod.fst).filter isProjectionKey with
    | nil => exact hcomp.bind hcomp.get fun _ => hcomp.pure _
    | cons k keys => exact project_leads _ _
  · rcases ran with _ | what | result <;> exact hcomp.pure _

/-- A call runs `__destruct` if it names it, and then on its own object. -/
theorem handleCall_leads {env : Envelope} {w : World μ σ}
    (hmay : ∀ args p, callParams srv.registry env.payload = .ok ((HOOK_DESTRUCT, args), p) →
      w.ctx.Has env.objectId → may (some env.objectId)) :
    w.Leads srv.registry may (srv.handleCall env w).trace (srv.handleCall env w).state := by
  have hcomp := leads_composes (μ := μ) (σ := σ) srv.registry may
  refine withObject_leads fun obj hobj => ?_
  cases hcall : callParams srv.registry env.payload with
  | error e =>
    rw [liftE_bind_error rfl]
    exact .refl w
  | ok params =>
    obtain ⟨⟨name, args⟩, p⟩ := params
    rw [liftE_bind_ok rfl]
    have hruns : LeadsAround srv.registry may
        (call srv.registry srv.impl (some env.objectId) name args) := by
      refine call_leads hsrv (fun hname => ?_) args
      subst hname
      exact hmay args p hcall (Option.isSome_of_eq_some hobj)
    have hcalled : Program.Keeps (fun v trace v' => v = w → v.Leads srv.registry may trace v')
        (onObject env.objectId obj (call srv.registry srv.impl (some env.objectId) name args)) :=
      fun v hv => hv ▸ onObject_leads hruns hobj
    refine hcomp.bind_at (Program.Keeps.attempt hcalled w rfl) fun called _ => ?_
    cases called <;>
    · simp only
      split
      · exact hcomp.pure _
      · first
        | exact sendResponse_leads _ (by decide) _
        | exact sendError_leads _ _ _ _

/-! ## Instantiate -/

/-- The object is filed under the next id, and that is reported. -/
def World.filed (w : World μ σ) (obj : Instance μ) : World μ σ :=
  { w with drawn := w.drawn + 1, ctx := w.ctx.putObject (w.ids w.drawn) obj }

/-- At most one object is filed, and then reported. -/
inductive World.Files (reg : Registry μ) (w : World μ σ) : List SessionEffect → World μ σ → Prop
  | nothing {trace : List SessionEffect} {w' : World μ σ}
      (h : w.Leads reg (fun _ => False) trace w') : Files reg w trace w'
  | object {trace : List SessionEffect} {w' : World μ σ} (h : w.Leads reg (fun _ => False) trace w')
      (obj : Instance μ) (hobj : obj.Headed) (env : Envelope) (klass : Key) :
      Files reg w (trace ++ [.sent (responseEnvelope env OP_INSTANTIATE
        (instantiateReply (w'.ids w'.drawn) klass))]) (w'.filed obj)

omit hsrv in
theorem World.Files.before {w w₁ w' : World μ σ} {trace trace' : List SessionEffect}
    (h : w.Leads reg (fun _ => False) trace w₁) (h' : w₁.Files reg trace' w') :
    w.Files reg (trace ++ trace') w' := by
  cases h' with
  | nothing h' => exact .nothing (h.trans h')
  | object h' obj hobj env klass =>
    rw [← List.append_assoc]
    exact .object (h.trans h') obj hobj env klass

theorem constructHook_leads (p : Fields) : LeadsAround srv.registry may (srv.constructHook p) := by
  have hcomp := leadsAround_composes (μ := μ) (σ := σ) srv.registry may
  refine hcomp.bind (findMethodM_leads _) fun found => ?_
  cases found with
  | none => exact hcomp.pure _
  | some m =>
    refine .attempt (hcomp.bind (hcomp.lift _) fun _ => ?_)
    exact hcomp.bind (call_leads hsrv (fun h => absurd h (by decide)) _) fun _ => hcomp.pure _

theorem handleInstantiate_files (env : Envelope) :
    Program.Keeps (World.Files srv.registry) (srv.handleInstantiate env) := by
  have hcomp := leads_composes (μ := μ) (σ := σ) srv.registry fun _ => False
  have hrefused (code : Key) (what : Text) : Program.Keeps (World.Files srv.registry)
      (sendError env OP_INSTANTIATE code what : ServerM μ σ Unit) :=
    fun w => .nothing (sendError_leads _ _ _ _ w)
  have hafter {α β : Type} {p : ServerM μ σ α} {f : α → ServerM μ σ β} {w : World μ σ} :=
    Program.Keeps.before (R := World.Leads srv.registry fun _ => False)
      (S := World.Files srv.registry) .nothing .before (p := p) (f := f) (s := w)
  refine fun w => hafter (hcomp.lift _ w) fun (klass, p) _ w =>
    hafter (hcomp.lift _ w) fun (named, p) _ => ?_
  cases named with
  | error what => exact hrefused _ what
  | ok ns =>
    simp only
    split
    · intro w
      obtain ⟨hsame, hheaded⟩ := hsrv.onCreateObject ns klass w
      have hmade : tryCatch (external (srv.onCreateObject ns klass)) w =
          ⟨.ok (srv.onCreateObject ns klass w).1, [], (srv.onCreateObject ns klass w).2⟩ :=
        tryCatch_mapError rfl
      refine hafter (by rw [hmade]; exact hsame.leads) fun made hresult => ?_
      rw [hmade] at hresult
      cases hresult
      rcases hobj : (srv.onCreateObject ns klass w).1 with what | _ | obj
      · exact hrefused _ what
      · exact hrefused _ _
      · intro w
        obtain ⟨hleads, hstays⟩ := withNewObject_leads (constructHook_leads hsrv p) obj w
        refine hafter hleads fun (built, obj') hresult => ?_
        cases built with
        | error what => exact hrefused _ _
        | ok u =>
          have hheaded' := (hstays _ _ hresult).headed (hheaded obj hobj)
          exact fun w => .object (.refl w) obj' hheaded' env klass
    · exact hrefused _ _

end Handlers

end Bison
