import Bison.Rmi.Lives

/-!
# Accounting for `__destruct`

Objects are destroyed one by one, by their group, and all together when a context is cleaned up.
An id that is still in a group after its object was destroyed finds nothing, and what is destroyed
all together is looked up once, so a `__destruct` is run once for each object that goes.

- `World.Accounts`: what a part of a request does to each object, with the `__destruct`s it runs.
- `destroyMember_accounts`, `cleanupContext_accounts`: the ways of destroying account for them.
-/

namespace Bison

open SortedMap

variable {μ σ : Type}

/-! ## Counting -/

/-- The effect is a run of `__destruct` on this object. -/
def SessionEffect.destructs (id : Key) : SessionEffect → Bool
  | .ran (some object) method => object = id ∧ method = HOOK_DESTRUCT
  | _ => false

/-- How often `__destruct` was run on an object. -/
def destructions (id : Key) (trace : List SessionEffect) : Nat := trace.countP (·.destructs id)

theorem destructions_append (id : Key) (trace trace' : List SessionEffect) :
    destructions id (trace ++ trace') = destructions id trace + destructions id trace' :=
  List.countP_append ..

theorem destructions_eq_zero {id : Key} {trace : List SessionEffect}
    (h : .ran (some id) HOOK_DESTRUCT ∉ trace) : destructions id trace = 0 := by
  refine List.countP_eq_zero.2 fun e he hdestructs => ?_
  cases e with
  | ran object method =>
    cases object with
    | none => cases hdestructs
    | some object =>
      obtain ⟨rfl, rfl⟩ : object = id ∧ method = HOOK_DESTRUCT := by
        simpa [SessionEffect.destructs] using hdestructs
      exact h he
  | sent env => cases hdestructs
  | closed => cases hdestructs
  | authenticated => cases hdestructs

theorem World.Leads.destructions_eq_zero {reg : Registry μ} {may : Option Key → Prop}
    {w w' : World μ σ} {trace : List SessionEffect} (h : w.Leads reg may trace w') {id : Key}
    (hid : ¬ may (some id)) : destructions id trace = 0 :=
  Bison.destructions_eq_zero fun hran => hid (h.quiet _ hran)

/-! ## The hook of a class -/

/-- The class has a `__destruct`, its own or an inherited one. -/
def Registry.HasDestruct (reg : Registry μ) (ns c : Key) : Prop :=
  ∃ col m, reg.lookup ns = some col ∧
    col.search (fun p => p.methods.lookup HOOK_DESTRUCT) c = some (some m)

variable {reg : Registry μ}

theorem Registry.HasDestruct.registered {ns c : Key} (h : reg.HasDestruct ns c) :
    reg.Registered ns c := by
  obtain ⟨col, m, hcol, hsearch⟩ := h
  refine ⟨col, hcol, ?_⟩
  cases hfind : Collection.find col c with
  | some proto => rfl
  | none =>
    rw [Collection.search, Chase.search, hfind] at hsearch
    cases hsearch

/-- A walk of an object starts at its class. -/
theorem OfClass.walkStart {d : Fields} {ns c : Key} (h : OfClass d ns c) (reg : Registry μ) :
    ∃ d', walkStart reg d = .ok ((reg.lookup ns).map fun col => (col, c), d') := by
  obtain ⟨d₁, hns⟩ := h.inNamespace
  have hclass := asKey_of_keyAt ((resolveNamespace_keeps hns).keyAt _ _ h.isClass)
  unfold Bison.walkStart
  simp only [hns, Decoder.ok_bind]
  cases hcol : reg.lookup ns with
  | none => exact ⟨d₁, rfl⟩
  | some col =>
    simp only [hclass, Decoder.ok_bind]
    exact ⟨d₁, rfl⟩

/-- The methods of an object of some class can be looked for. -/
theorem Instance.Headed.findMethod {obj : Instance μ} (h : obj.Headed) (hacyclic : reg.Acyclic)
    (name : Key) : ∃ r, findMethod reg name obj.methods obj.fields = .ok r := by
  obtain ⟨ns, c, hobj⟩ := h
  obtain ⟨d', hstart⟩ := OfClass.walkStart hobj reg
  unfold Bison.findMethod
  cases hown : obj.methods.lookup name with
  | some m => exact ⟨_, rfl⟩
  | none =>
    simp only [hstart, Decoder.ok_bind]
    cases hcol : reg.lookup ns with
    | none => exact ⟨_, rfl⟩
    | some col =>
      obtain ⟨found, hfound⟩ := Option.isSome_iff_exists.1
        (hacyclic.search_isSome (fun p => p.methods.lookup name) hcol c)
      simp only [Option.map_some, hfound]
      cases found with
      | none => exact ⟨_, rfl⟩
      | some m => exact ⟨_, rfl⟩

/-- The `__destruct` of its class is found, if the object has none of its own. -/
theorem Registry.HasDestruct.findMethod {ns c : Key} (h : reg.HasDestruct ns c)
    {obj : Instance μ} (hobj : obj.IsA ns c) : ∃ m methods fields,
      findMethod reg HOOK_DESTRUCT obj.methods obj.fields = .ok ((some m, methods), fields) := by
  obtain ⟨col, m, hcol, hsearch⟩ := h
  obtain ⟨d', hstart⟩ := OfClass.walkStart hobj reg
  unfold Bison.findMethod
  cases hown : obj.methods.lookup HOOK_DESTRUCT with
  | some m => exact ⟨m, _, _, rfl⟩
  | none =>
    simp only [hstart, Decoder.ok_bind, hcol, Option.map_some, hsearch]
    exact ⟨m, _, _, rfl⟩

section Destruct

variable {srv : Server μ σ} {id : Key} {obj : Instance μ} {w : World μ σ}

theorem destruct_leads (hsrv : srv.KeepsObjects) (hobj : w.ctx.objects.lookup id = some obj) :
    w.Leads srv.registry (· = some id) (srv.destruct id obj w).trace
      (srv.destruct id obj w).state := by
  have hcomp := leadsAround_composes (μ := μ) (σ := σ) srv.registry (· = some id)
  have hhook : LeadsAround srv.registry (· = some id)
      (runHook srv.registry srv.impl (some id) HOOK_DESTRUCT Dynamic.empty) := by
    refine runHook_leads hsrv ?_ _
    exact fun _ => rfl
  exact onObject_leads (hcomp.bind hhook fun _ => hcomp.pure _) hobj

/-- A lookup that throws runs nothing. -/
theorem destruct_failed {e : Failure} (h : (srv.destruct id obj w).result = .error e) :
    (srv.destruct id obj w).trace = [] := by
  cases hfind : findMethod srv.registry HOOK_DESTRUCT obj.methods obj.fields with
  | error e => rw [Server.destruct_fails hfind]
  | ok r =>
    rw [Server.destruct_ok_iff.2 ⟨r, hfind⟩] at h
    cases h

theorem destruct_runs {ns c : Key} (h : srv.registry.HasDestruct ns c) (hobj : obj.IsA ns c) :
    (srv.destruct id obj w).trace = [.ran id HOOK_DESTRUCT] := by
  obtain ⟨m, methods, fields, hfind⟩ := h.findMethod hobj
  rw [Server.destruct_found hfind rfl]

theorem destructions_ran (id : Key) : destructions id [.ran id HOOK_DESTRUCT] = 1 := by
  simp [destructions, SessionEffect.destructs]

end Destruct

/-! ## What becomes of the objects -/

/-- Objects stay, and their `__destruct` is not run, or they go, and it is run once if the class
has one. It is run on no other objects, and none is reported. -/
structure World.Accounts (reg : Registry μ) (w : World μ σ) (trace : List SessionEffect)
    (w' : World μ σ) : Prop where
  ids : w'.ids = w.ids
  drawn : w.drawn ≤ w'.drawn
  absent : ∀ id, w.ctx.objects.lookup id = none → w'.ctx.objects.lookup id = none
  present : ∀ id obj, w.ctx.objects.lookup id = some obj →
    (∃ obj', w'.ctx.objects.lookup id = some obj' ∧ obj.Stays reg obj') ∧
        destructions id trace = 0 ∨
      w'.ctx.objects.lookup id = none ∧
        ∀ ns c, reg.HasDestruct ns c → obj.IsA ns c → destructions id trace = 1
  there : ∀ object, .ran object HOOK_DESTRUCT ∈ trace → ∃ id, object = some id ∧ w.ctx.Has id
  unreported : ∀ e ∈ trace, ∀ id, ¬ e.Reports id

abbrev Accounts (reg : Registry μ) {α : Type} (p : ServerM μ σ α) : Prop :=
  Program.Keeps (World.Accounts reg) p

theorem World.Leads.accounts {w w' : World μ σ} {trace : List SessionEffect}
    (h : w.Leads reg (fun _ => False) trace w') : w.Accounts reg trace w' where
  ids := h.same.ids
  drawn := h.same.drawn
  absent := h.same.absent
  present id obj hobj := .inl ⟨h.same.kept id obj hobj, h.destructions_eq_zero not_false⟩
  there object hran := (h.quiet object hran).elim
  unreported := h.unreported

namespace World.Accounts

variable {w w' w'' : World μ σ} {trace trace' : List SessionEffect}

theorem destructions_of_absent (h : w.Accounts reg trace w') {id : Key}
    (hid : w.ctx.objects.lookup id = none) : destructions id trace = 0 := by
  refine destructions_eq_zero fun hran => ?_
  obtain ⟨id', heq, hhas⟩ := h.there _ hran
  cases heq
  unfold Context.Has at hhas
  rw [hid] at hhas
  cases hhas

theorem trans (h : w.Accounts reg trace w') (h' : w'.Accounts reg trace' w'') :
    w.Accounts reg (trace ++ trace') w'' where
  ids := h'.ids.trans h.ids
  drawn := h.drawn.trans h'.drawn
  absent id hid := h'.absent id (h.absent id hid)
  present id obj hobj := by
    rw [destructions_append]
    rcases h.present id obj hobj with ⟨⟨obj', hobj', hstays⟩, hzero⟩ | ⟨hgone, honce⟩
    · rw [hzero, Nat.zero_add]
      rcases h'.present id obj' hobj' with ⟨⟨obj'', hobj'', hstays'⟩, hzero'⟩ | ⟨hgone, honce⟩
      · exact .inl ⟨⟨obj'', hobj'', hstays.trans hstays'⟩, hzero'⟩
      · exact .inr ⟨hgone, fun ns c hhook hisA =>
          honce ns c hhook (hstays.same ns c hhook.registered hisA)⟩
    · -- It is gone already, and what comes after does not see it.
      rw [h'.destructions_of_absent hgone, Nat.add_zero]
      exact .inr ⟨h'.absent id hgone, honce⟩
  there object hran := by
    rcases List.mem_append.1 hran with hran | hran
    · exact h.there object hran
    · obtain ⟨id, rfl, hhas⟩ := h'.there object hran
      refine ⟨id, rfl, ?_⟩
      unfold Context.Has at hhas ⊢
      cases hobj : w.ctx.objects.lookup id with
      | some obj => rfl
      | none =>
        rw [h.absent id hobj] at hhas
        cases hhas
  unreported e he := (List.mem_append.1 he).elim (h.unreported e) (h'.unreported e)

/-- An object whose `__destruct` has been run is taken out. -/
theorem erase {id : Key} {obj : Instance μ} (h : w.Leads reg (· = some id) trace w')
    (hobj : w.ctx.objects.lookup id = some obj)
    (honce : ∀ ns c, reg.HasDestruct ns c → obj.IsA ns c → destructions id trace = 1) :
    w.Accounts reg trace { w' with ctx := w'.ctx.eraseObject id } where
  ids := h.same.ids
  drawn := h.same.drawn
  absent id' hid' := by
    simp only [Context.eraseObject, FinMap.lookup_erase, h.same.absent id' hid', ite_self]
  present id' obj' hobj' := by
    by_cases hid : id' = id
    · subst hid
      rw [hobj] at hobj'
      cases hobj'
      exact .inr ⟨FinMap.lookup_erase_self _ _, honce⟩
    · have hzero := h.destructions_eq_zero fun heq : some id' = some id => hid (Option.some.inj heq)
      simp only [Context.eraseObject, FinMap.lookup_erase_ne hid]
      exact .inl ⟨h.same.kept id' obj' hobj', hzero⟩
  there object hran := ⟨id, h.quiet object hran, Option.isSome_of_eq_some hobj⟩
  unreported := h.unreported

end World.Accounts

theorem accounts_composes (reg : Registry μ) :
    Program.Composes (World.Accounts (σ := σ) reg) :=
  ⟨fun w => (World.Leads.refl w).accounts, .trans⟩

section Handlers

variable {srv : Server μ σ} (hsrv : srv.KeepsObjects)

include hsrv

/-! ## The ways of destroying -/

/-- One object is destroyed, or the lookup of its `__destruct` throws. -/
theorem destroy_accounts {id : Key} {obj : Instance μ} {w : World μ σ}
    (hobj : w.ctx.objects.lookup id = some obj) :
    w.Accounts srv.registry
      ((srv.destruct id obj >>= fun _ => modifyCtx fun ctx => ctx.eraseObject id) w).trace
      ((srv.destruct id obj >>= fun _ => modifyCtx fun ctx => ctx.eraseObject id) w).state := by
  have hleads := destruct_leads hsrv hobj
  have honce (ns c : Key) (hhook : srv.registry.HasDestruct ns c) (hisA : obj.IsA ns c) :
      destructions id (srv.destruct id obj w).trace = 1 := by
    rw [destruct_runs hhook hisA]
    exact destructions_ran id
  have hfailed := @destruct_failed _ _ srv id obj w
  rcases hrun : srv.destruct id obj w with ⟨e | u, trace, w'⟩ <;> rw [hrun] at hleads honce hfailed
  · rw [Program.bind_error hrun]
    cases hfailed rfl
    exact hleads.same.leads.accounts
  · rw [Program.bind_ok hrun]
    exact (World.Accounts.erase hleads hobj honce).trans ((accounts_composes _).refl _)

theorem destroyMember_accounts (id : Key) : Accounts srv.registry (srv.destroyMember id) := by
  intro w
  cases hobj : w.ctx.objects.lookup id with
  | none =>
    rw [Server.destroyMember_absent hobj]
    exact (accounts_composes _).refl w
  | some obj =>
    rw [Server.destroyMember_present hobj]
    exact destroy_accounts hsrv hobj

theorem handleDestroy_accounts (env : Envelope) :
    Accounts srv.registry (srv.handleDestroy env) := by
  intro w
  have hcomp := accounts_composes (μ := μ) (σ := σ) srv.registry
  unfold Server.handleDestroy
  cases hobj : w.ctx.objects.lookup env.objectId with
  | none =>
    rw [withObject_missing hobj]
    exact (sendError_leads _ _ _ _ w).accounts
  | some obj =>
    rw [withObject_found hobj]
    rw [← Program.bind_assoc]
    exact hcomp.bind_at (destroy_accounts hsrv hobj) fun _ _ w' =>
      (sendResponse_leads _ (by decide) _ w').accounts

theorem handleDestroyGroup_accounts (env : Envelope) :
    Accounts srv.registry (srv.handleDestroyGroup env) := by
  intro w
  have hcomp := accounts_composes (μ := μ) (σ := σ) srv.registry
  have hsend : Accounts srv.registry
      (sendResponse env OP_DESTROY_GROUP Dynamic.empty : ServerM μ σ Unit) :=
    fun w' => (sendResponse_leads _ (by decide) _ w').accounts
  by_cases hknown : w.ctx.groups.lookup env.group = none ∨ env.group = 0
  · rw [Server.handleDestroyGroup_unknown srv hknown]
    exact hsend w
  · obtain ⟨hids, hgroup⟩ := not_or.1 hknown
    obtain ⟨ids, hids⟩ := Option.ne_none_iff_exists'.1 hids
    rw [Server.handleDestroyGroup_known srv hids hgroup]
    have hdropped : w.SameObjects srv.registry (w.dropGroup env.group) :=
      .of_objects rfl (le_refl _) rfl
    exact hdropped.leads.accounts.trans
      (hcomp.bind (hcomp.forEach fun id _ => destroyMember_accounts hsrv id)
      (fun _ => hsend) _)

/-! ## All objects at once -/

/-- Every object is of some class. -/
def World.Headed (w : World μ σ) : Prop :=
  ∀ id obj, w.ctx.objects.lookup id = some obj → obj.Headed

omit hsrv in
theorem World.SameObjects.headed {w w' : World μ σ} (h : w.SameObjects reg w')
    (hheaded : w.Headed) : w'.Headed := by
  intro id obj' hobj'
  cases hobj : w.ctx.objects.lookup id with
  | none =>
    rw [h.absent id hobj] at hobj'
    cases hobj'
  | some obj =>
    obtain ⟨obj₁, hobj₁, hstays⟩ := h.kept id obj hobj
    rw [hobj'] at hobj₁
    cases hobj₁
    exact hstays.headed (hheaded id obj hobj)

/-- One object of a context that is cleaned up: its hook is run, and it stays there. -/
theorem destructMember_run (hacyclic : srv.registry.Acyclic) (id : Key) {w : World μ σ}
    (hheaded : w.Headed) : ∃ trace w', srv.destructMember id w = ⟨.ok (), trace, w'⟩ ∧
      w.Leads srv.registry (fun object => object = some id ∧ w.ctx.Has id) trace w' ∧
      ∀ obj ns c, w.ctx.objects.lookup id = some obj → srv.registry.HasDestruct ns c →
        obj.IsA ns c → destructions id trace = 1 := by
  cases hobj : w.ctx.objects.lookup id with
  | none =>
    refine ⟨[], w, ?_, .refl w, fun obj _ _ h => by cases h⟩
    rw [Server.destructMember, Program.bind_ok (findObject_run id w), hobj]
    rfl
  | some obj =>
    have hrun : srv.destructMember id w = srv.destruct id obj w := by
      rw [Server.destructMember, Program.bind_ok (findObject_run id w), hobj]
      rfl
    have hok : (srv.destruct id obj w).result = .ok () :=
      Server.destruct_ok_iff.2 ((hheaded id obj hobj).findMethod hacyclic HOOK_DESTRUCT)
    have hleads := destruct_leads hsrv hobj
    refine ⟨(srv.destruct id obj w).trace, (srv.destruct id obj w).state, ?_, ?_, ?_⟩
    · rw [hrun, ← hok]
    · exact ⟨hleads.same, fun object hran =>
        ⟨hleads.quiet object hran, Option.isSome_of_eq_some hobj⟩,
        hleads.unreported⟩
    · intro obj' ns c hobj' hhook hisA
      cases hobj'
      rw [destruct_runs hhook hisA]
      exact destructions_ran id

/-- The hook of each object is run as often as its id is met. -/
theorem destructMembers_run (hacyclic : srv.registry.Acyclic) (ids : List Key) {w : World μ σ}
    (hheaded : w.Headed) :
    ∃ trace w', Program.forEach srv.destructMember ids w = ⟨.ok (), trace, w'⟩ ∧
      w.Leads srv.registry (fun object => ∃ id ∈ ids, object = some id ∧ w.ctx.Has id) trace w' ∧
      ∀ id obj ns c, w.ctx.objects.lookup id = some obj → srv.registry.HasDestruct ns c →
        obj.IsA ns c → destructions id trace = ids.count id := by
  induction ids generalizing w with
  | nil => exact ⟨[], w, rfl, .refl w, fun _ _ _ _ _ _ _ => rfl⟩
  | cons first ids ih =>
    obtain ⟨trace, w₁, hrun, hleads, honce⟩ := destructMember_run hsrv hacyclic first hheaded
    obtain ⟨trace', w', hrun', hleads', hcount⟩ := ih (hleads.same.headed hheaded)
    refine ⟨trace ++ trace', w', ?_, ⟨hleads.same.trans hleads'.same, ?_, ?_⟩, ?_⟩
    · rw [Program.forEach_ok hrun, hrun']
    · intro object hran
      rcases List.mem_append.1 hran with hran | hran
      · exact ⟨first, List.mem_cons_self .., hleads.quiet object hran⟩
      · obtain ⟨id, hid, heq, hhas⟩ := hleads'.quiet object hran
        exact ⟨id, List.mem_cons_of_mem _ hid, heq, (hleads.same.has id).1 hhas⟩
    · exact fun e he => (List.mem_append.1 he).elim (hleads.unreported e) (hleads'.unreported e)
    · intro id obj ns c hobj hhook hisA
      obtain ⟨obj', hobj', hstays⟩ := hleads.same.kept id obj hobj
      have hisA' := hstays.same ns c hhook.registered hisA
      rw [destructions_append, hcount id obj' ns c hobj' hhook hisA', List.count_cons, Nat.add_comm]
      congr 1
      by_cases hid : first = id
      · subst hid
        rw [honce obj ns c hobj hhook hisA]
        simp
      · have hzero : destructions id trace = 0 :=
          hleads.destructions_eq_zero fun h => hid (Option.some.inj h.1).symm
        simpa [hid] using hzero

/-- A context that is cleaned up runs the hook of each object once, and is empty then. -/
theorem cleanupContext_accounts (hacyclic : srv.registry.Acyclic) {w : World μ σ}
    (hheaded : w.Headed) :
    w.Accounts srv.registry (srv.cleanupContext w).trace (srv.cleanupContext w).state ∧
      (srv.cleanupContext w).state.ctx.objects = ∅ := by
  obtain ⟨trace, w', hrun, hleads, hcount⟩ :=
    destructMembers_run hsrv hacyclic (srv.iterate.1 w.ctx.objects.keys) hheaded
  have hperm := srv.iterate.2 w.ctx.objects.keys
  have hcleanup : srv.cleanupContext w =
      ⟨.ok (), trace, { w' with ctx := { w'.ctx with objects := ∅, groups := ∅ } }⟩ := by
    unfold Server.cleanupContext
    rw [Program.bind_ok (Program.get_run w), Program.bind_ok hrun]
    simp only [modifyCtx, Program.modify, List.nil_append, List.append_nil]
  rw [hcleanup]
  refine ⟨⟨hleads.same.ids, hleads.same.drawn, fun _ _ => rfl, fun id obj hobj => .inr ⟨rfl, ?_⟩,
    fun object hran => ?_, hleads.unreported⟩, rfl⟩
  · intro ns c hhook hisA
    have hmem : id ∈ srv.iterate.1 w.ctx.objects.keys := by
      rw [hperm.mem_iff, FinMap.mem_keys, hobj]
      rfl
    rw [hcount id obj ns c hobj hhook hisA]
    exact List.count_eq_one_of_mem (hperm.nodup_iff.2 w.ctx.objects.nodup_keys) hmem
  · obtain ⟨id, -, heq, hhas⟩ := hleads.quiet object hran
    exact ⟨id, heq, hhas⟩

theorem handleDisconnect_accounts (hacyclic : srv.registry.Acyclic) (env : Envelope)
    {w : World μ σ} (hheaded : w.Headed) :
    w.Accounts srv.registry (srv.handleDisconnect env w).trace
      (srv.handleDisconnect env w).state := by
  have hcomp := accounts_composes (μ := μ) (σ := σ) srv.registry
  have hclosed : SessionEffect.closed.Plain := by
    refine ⟨fun object h => SessionEffect.noConfusion h, fun id => ?_⟩
    rintro ⟨env', klass, h⟩
    cases h
  refine hcomp.bind_at (cleanupContext_accounts hsrv hacyclic hheaded).1 fun _ _ =>
    hcomp.bind (fun w' => ?_) fun _ w' => (hclosed.leads w').accounts
  exact (sendResponse_leads _ (by decide) _ w').accounts

end Handlers

end Bison
