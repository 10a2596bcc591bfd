import Bison.Rmi.Groups

/-!
# Hooks, and the objects that are destroyed

What running a hook comes to: a lookup, and if it finds the hook, one run of it. Whatever the hook
throws is caught; a lookup that throws is not.

- `runHook_found`, `runHook_missing`, `runHook_fails`: a hook.
- `destroyMembers_done`, `destroyMembers_stuck`: the objects of a group are all destroyed, or a
  lookup of a `__destruct` throws and its object stays.
-/

namespace Bison

open SortedMap

variable {μ σ : Type}

/-- A method that was found is found in the object from then on. -/
theorem findMethod_again {reg : Registry μ} {name : Key} {methods methods' : List (Key × μ)}
    {fields fields' : Fields} {m : μ}
    (h : findMethod reg name methods fields = .ok ((some m, methods'), fields')) :
    findMethod reg name methods' fields' = .ok ((some m, methods'), fields') := by
  have hcached : methods'.lookup name = some m := by
    unfold findMethod at h
    cases hown : methods.lookup name with
    | some m' =>
      simp only [hown] at h
      cases h
      exact hown
    | none =>
      simp only [hown] at h
      cases hstart : walkStart reg fields with
      | error e =>
        rw [hstart, Decoder.error_bind] at h
        cases h
      | ok r =>
        rw [hstart, Decoder.ok_bind] at h
        rcases r with ⟨_ | ⟨col, c⟩, d⟩
        · cases h
        · cases hsearch : col.search (fun p => p.methods.lookup name) c with
          | none =>
            simp only [hsearch] at h
            cases h
          | some found =>
            cases found with
            | none =>
              simp only [hsearch] at h
              cases h
            | some m' =>
              simp only [hsearch] at h
              cases h
              exact lookup_insert_self _ _ _
  simp only [findMethod, hcached]

section Hooks

variable {reg : Registry μ} {impl : MethodImpl μ σ} {hook : Key} {obj : Instance μ}
  {methods : List (Key × μ)} {fields : Fields}

theorem findMethodM_error {e : Exn} (h : findMethod reg hook obj.methods obj.fields = .error e)
    (w : World μ σ) : findMethodM reg hook (obj, w) =
      ⟨.error (.ofExn e), [], ({ obj with fields := afterThrow obj.fields }, w)⟩ := by
  simp only [findMethodM, Program.ofState, h]

theorem runHook_fails {e : Exn} (h : findMethod reg hook obj.methods obj.fields = .error e)
    (self : Option Key) (params : Fields) (w : World μ σ) :
    runHook reg impl self hook params (obj, w) =
      ⟨.error (.ofExn e), [], ({ obj with fields := afterThrow obj.fields }, w)⟩ :=
  Program.bind_error (findMethodM_error h w) _

theorem runHook_missing
    (h : findMethod reg hook obj.methods obj.fields = .ok ((none, methods), fields))
    (self : Option Key) (params : Fields) (w : World μ σ) :
    runHook reg impl self hook params (obj, w) = ⟨.ok none, [], (⟨fields, methods⟩, w)⟩ := by
  rw [runHook, Program.bind_ok (findMethodM_run h w)]
  rfl

theorem call_found {m : μ}
    (h : findMethod reg hook obj.methods obj.fields = .ok ((some m, methods), fields))
    (self : Option Key) (params : Fields) (w : World μ σ) :
    call reg impl self hook params (obj, w) =
      ⟨(impl m params (⟨fields, methods⟩, w)).1.mapError .thrown, [.ran self hook],
        (impl m params (⟨fields, methods⟩, w)).2⟩ := by
  rw [call, Program.bind_ok (findMethodM_run h w)]
  rfl

theorem runHook_found {m : μ}
    (h : findMethod reg hook obj.methods obj.fields = .ok ((some m, methods), fields))
    (self : Option Key) (params : Fields) (w : World μ σ) :
    runHook reg impl self hook params (obj, w) =
      ⟨.ok (some (impl m params (⟨fields, methods⟩, w)).1), [.ran self hook],
        (impl m params (⟨fields, methods⟩, w)).2⟩ := by
  have hcall : call reg impl self hook params (⟨fields, methods⟩, w) = _ :=
    call_found (findMethod_again h) self params w
  rw [runHook, Program.bind_ok (findMethodM_run h w)]
  simp only [Program.map_ok (tryCatch_mapError hcall), List.nil_append]

end Hooks

namespace Server

variable {srv : Server μ σ} {id : Key} {obj : Instance μ} {w : World μ σ}

/-! ## One object -/

theorem destruct_fails {e : Exn}
    (h : findMethod srv.registry HOOK_DESTRUCT obj.methods obj.fields = .error e) :
    srv.destruct id obj w = ⟨.error (.ofExn e), [],
      { w with ctx := w.ctx.storeObject id { obj with fields := afterThrow obj.fields } }⟩ := by
  unfold destruct onObject
  rw [Program.bind_error (runHook_fails h _ _ w)]

theorem destruct_missing {methods : List (Key × μ)} {fields : Fields}
    (h : findMethod srv.registry HOOK_DESTRUCT obj.methods obj.fields =
      .ok ((none, methods), fields)) :
    srv.destruct id obj w =
      ⟨.ok (), [], { w with ctx := w.ctx.storeObject id ⟨fields, methods⟩ }⟩ := by
  unfold destruct onObject
  rw [Program.bind_ok (runHook_missing h _ _ w)]
  rfl

theorem destruct_found {m : μ} {methods : List (Key × μ)} {fields : Fields}
    {s : Instance μ × World μ σ}
    (h : findMethod srv.registry HOOK_DESTRUCT obj.methods obj.fields =
      .ok ((some m, methods), fields))
    (hs : (srv.impl m Dynamic.empty (⟨fields, methods⟩, w)).2 = s) :
    srv.destruct id obj w = ⟨.ok (), [.ran id HOOK_DESTRUCT],
      { s.2 with ctx := s.2.ctx.storeObject id s.1 }⟩ := by
  unfold destruct onObject
  rw [Program.bind_ok (runHook_found h _ _ w), hs]
  rfl

/-- An object is destroyed exactly if its `__destruct` can be looked for. -/
theorem destruct_ok_iff : (srv.destruct id obj w).result = .ok () ↔
    ∃ r, findMethod srv.registry HOOK_DESTRUCT obj.methods obj.fields = .ok r := by
  cases h : findMethod srv.registry HOOK_DESTRUCT obj.methods obj.fields with
  | error e =>
    rw [destruct_fails h]
    simp
  | ok r =>
    obtain ⟨⟨_ | m, methods⟩, fields⟩ := r
    · rw [destruct_missing h]
      simp
    · rw [destruct_found h rfl]
      simp

/-! ## The objects of a group -/

theorem destroyMember_absent (h : w.ctx.objects.lookup id = none) :
    srv.destroyMember id w = ⟨.ok (), [], w⟩ := by
  rw [destroyMember, Program.bind_ok (findObject_run id w), h]
  rfl

theorem destroyMember_present (h : w.ctx.objects.lookup id = some obj) :
    srv.destroyMember id w =
      (srv.destruct id obj >>= fun _ => modifyCtx fun ctx => ctx.eraseObject id) w := by
  rw [destroyMember, Program.bind_ok (findObject_run id w), h]
  rfl

/-- When its turn comes, the `__destruct` of every object there can be looked for. -/
def Destructible (srv : Server μ σ) : List Key → World μ σ → Prop
  | [], _ => True
  | id :: ids, w =>
    (∀ obj, w.ctx.objects.lookup id = some obj →
      ∃ r, findMethod srv.registry HOOK_DESTRUCT obj.methods obj.fields = .ok r) ∧
    Destructible srv ids (srv.destroyMember id w).state

/-- The `__destruct` hooks create no objects. -/
def DestructsOnly (srv : Server μ σ) : Prop :=
  ∀ id obj w id', (srv.destruct id obj w).state.ctx.Has id' → w.ctx.Has id'

theorem has_storeObject {ctx : Context μ} {id' : Key} (h : (ctx.storeObject id obj).Has id') :
    ctx.Has id' :=
  ((Context.evolves_storeObject id obj ctx).has id' h).resolve_right List.not_mem_nil

/-- It is enough that no method creates an object. -/
theorem destructsOnly_of_impl (h : ∀ m params s id, (srv.impl m params s).2.2.ctx.Has id →
    s.2.ctx.Has id) : srv.DestructsOnly := by
  intro id obj w id' hid
  cases hfind : findMethod srv.registry HOOK_DESTRUCT obj.methods obj.fields with
  | error e =>
    rw [destruct_fails hfind] at hid
    exact has_storeObject hid
  | ok r =>
    obtain ⟨⟨_ | m, methods⟩, fields⟩ := r
    · rw [destruct_missing hfind] at hid
      exact has_storeObject hid
    · rw [destruct_found hfind rfl] at hid
      exact h m _ _ id' (has_storeObject hid)

theorem has_eraseObject {ctx : Context μ} {id' : Key} :
    (ctx.eraseObject id).Has id' ↔ id' ≠ id ∧ ctx.Has id' := by
  unfold Context.Has Context.eraseObject
  rw [FinMap.lookup_erase]
  split_ifs with h <;> simp [h]

theorem destroyMember_ok (h : ∀ obj, w.ctx.objects.lookup id = some obj →
    ∃ r, findMethod srv.registry HOOK_DESTRUCT obj.methods obj.fields = .ok r) :
    (srv.destroyMember id w).result = .ok () := by
  cases hobj : w.ctx.objects.lookup id with
  | none => rw [destroyMember_absent hobj]
  | some obj =>
    have hok : (srv.destruct id obj w).result = .ok () := destruct_ok_iff.2 (h obj hobj)
    rw [destroyMember_present hobj]
    rcases hrun : srv.destruct id obj w with ⟨result, trace, w'⟩
    rw [hrun] at hok
    rw [show result = .ok () from hok] at hrun
    rw [Program.bind_ok hrun]
    rfl

/-- An object that is destroyed is gone, and nothing else is there that was not. -/
theorem destroyMember_has (hhooks : srv.DestructsOnly)
    (hok : (srv.destroyMember id w).result = .ok ()) {id' : Key}
    (hid : (srv.destroyMember id w).state.ctx.Has id') : id' ≠ id ∧ w.ctx.Has id' := by
  cases hobj : w.ctx.objects.lookup id with
  | none =>
    rw [destroyMember_absent hobj] at hid
    refine ⟨?_, hid⟩
    rintro rfl
    simp [Context.Has, hobj] at hid
  | some obj =>
    have hhas := hhooks id obj w id'
    rw [destroyMember_present hobj] at hok hid
    rcases hrun : srv.destruct id obj w with ⟨e | u, trace, w'⟩ <;> rw [hrun] at hhas
    · rw [Program.bind_error hrun] at hok
      cases hok
    · rw [Program.bind_ok hrun] at hid
      have hid := has_eraseObject.1 hid
      exact ⟨hid.1, hhas hid.2⟩

/-- A lookup that throws leaves the object there. -/
theorem destroyMember_stuck {e : Exn} (hobj : w.ctx.objects.lookup id = some obj)
    (h : findMethod srv.registry HOOK_DESTRUCT obj.methods obj.fields = .error e) :
    (srv.destroyMember id w).result = .error (.ofExn e) ∧
      (srv.destroyMember id w).state.ctx.Has id := by
  rw [destroyMember_present hobj, Program.bind_error (destruct_fails h)]
  refine ⟨rfl, ?_⟩
  have hevolves := Context.evolves_storeObject id { obj with fields := afterThrow obj.fields } w.ctx
  have hthere : w.ctx.Has id := by simp [Context.Has, hobj]
  exact (hevolves.kept id (.inl hthere)).resolve_right List.not_mem_nil

/-- The objects of a group whose lookups succeed are all gone. -/
theorem destroyMembers_done (hhooks : srv.DestructsOnly) {ids : List Key}
    (h : srv.Destructible ids w) {id : Key}
    (hid : (Program.forEach srv.destroyMember ids w).state.ctx.Has id) :
    id ∉ ids ∧ w.ctx.Has id := by
  induction ids generalizing w with
  | nil => exact ⟨List.not_mem_nil, hid⟩
  | cons first ids ih =>
    have hok := destroyMember_ok h.1
    have hhas := @destroyMember_has _ _ _ _ _ hhooks hok id
    have hrest := h.2
    rcases hrun : srv.destroyMember first w with ⟨result, trace, w'⟩
    rw [hrun] at hok hhas hrest
    rw [show result = .ok () from hok] at hrun
    rw [Program.forEach_ok hrun] at hid
    obtain ⟨hnot, hid⟩ := ih hrest hid
    obtain ⟨hne, hid⟩ := hhas hid
    exact ⟨List.not_mem_cons_of_ne_of_not_mem hne hnot, hid⟩

/-- A lookup that throws ends the loop, and its object stays. -/
theorem destroyMembers_stuck {ids : List Key} (h : ¬ srv.Destructible ids w) :
    ∃ id ∈ ids, (Program.forEach srv.destroyMember ids w).state.ctx.Has id := by
  induction ids generalizing w with
  | nil => exact (h trivial).elim
  | cons first ids ih =>
    by_cases hfirst : ∀ obj, w.ctx.objects.lookup first = some obj →
        ∃ r, findMethod srv.registry HOOK_DESTRUCT obj.methods obj.fields = .ok r
    · obtain ⟨id, hmem, hhas⟩ := ih fun hrest => h ⟨hfirst, hrest⟩
      have hok := destroyMember_ok hfirst
      refine ⟨id, List.mem_cons_of_mem _ hmem, ?_⟩
      rcases hrun : srv.destroyMember first w with ⟨result, trace, w'⟩
      rw [hrun] at hok hhas
      rw [show result = .ok () from hok] at hrun
      rw [Program.forEach_ok hrun]
      exact hhas
    · simp only [not_forall, not_exists] at hfirst
      obtain ⟨obj, hobj, hnone⟩ := hfirst
      cases hfind : findMethod srv.registry HOOK_DESTRUCT obj.methods obj.fields with
      | ok r => exact (hnone r hfind).elim
      | error e =>
        obtain ⟨hresult, hhas⟩ := destroyMember_stuck hobj hfind
        rcases hrun : srv.destroyMember first w with ⟨result, trace, w'⟩
        rw [hrun] at hresult hhas
        rw [show result = .error (.ofExn e) from hresult] at hrun
        refine ⟨first, List.mem_cons_self .., ?_⟩
        rw [Program.forEach_error hrun]
        exact hhas

end Server

end Bison
