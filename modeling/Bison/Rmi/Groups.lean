import Bison.Rmi.Server

/-!
# Objects and groups

`put_object` files an object in `objects` and, while a grouped request is dispatched, its id in
`groups`. Objects leave by four ways: destroy, destroyGroup, disconnect and teardown.

- `Context.Evolves`: what a part of a request does to the two tables, given the objects it puts
  and the ones it erases.
- `Server.PutsOnly`: the code of the application changes a context by `put_object` only, with ids
  it has generated.
-/

namespace Bison

variable {μ σ : Type}

namespace Context

/-- An object with this id is there. -/
def Has (ctx : Context μ) (id : Key) : Prop := (ctx.objects.lookup id).isSome

/-- The id is recorded in group `g`. -/
def InGroup (ctx : Context μ) (g id : Key) : Prop := id ∈ (ctx.groups.lookup g).getD []

/-- `new` was put and nothing but `erased` was erased. -/
structure Evolves (new erased : List Key) (ctx ctx' : Context μ) : Prop where
  current : ctx'.currentGroup = ctx.currentGroup
  has : ∀ id, ctx'.Has id → ctx.Has id ∨ id ∈ new
  kept : ∀ id, ctx.Has id ∨ id ∈ new → ctx'.Has id ∨ id ∈ erased
  groups : ∀ g id, ctx'.InGroup g id ↔
    ctx.InGroup g id ∨ g = ctx.currentGroup ∧ g ≠ 0 ∧ id ∈ new

variable {new new' erased erased' : List Key} {ctx ctx' ctx'' : Context μ}

theorem Evolves.refl (ctx : Context μ) : Evolves [] [] ctx ctx where
  current := rfl
  has _ h := .inl h
  kept _ h := .inl (h.resolve_right List.not_mem_nil)
  groups _ _ := by simp

theorem Evolves.trans (h : Evolves new erased ctx ctx') (h' : Evolves new' erased' ctx' ctx'') :
    Evolves (new ++ new') (erased ++ erased') ctx ctx'' where
  current := h'.current.trans h.current
  has id hid := by
    have := h'.has id hid
    have := h.has id
    simp only [List.mem_append]
    tauto
  kept id hid := by
    have := h.kept id
    have := h'.kept id
    simp only [List.mem_append] at hid ⊢
    tauto
  groups g id := by
    rw [h'.groups, h.groups, h.current, List.mem_append]
    tauto

theorem inGroup_putObject (id : Key) (obj : Instance μ) (ctx : Context μ) (g id' : Key) :
    (ctx.putObject id obj).InGroup g id' ↔
      ctx.InGroup g id' ∨ g = ctx.currentGroup ∧ g ≠ 0 ∧ id' = id := by
  unfold putObject
  by_cases hg : ctx.currentGroup = 0
  · simp only [hg, ne_eq, not_true, if_false]
    exact ⟨.inl, fun h => h.resolve_right fun h => h.2.1 h.1⟩
  simp only [ne_eq, hg, not_false_eq_true, if_true, InGroup, FinMap.lookup_insert]
  by_cases hcur : g = ctx.currentGroup
  · subst hcur
    rw [if_pos rfl, Option.getD_some]
    split_ifs with hmem
    · refine ⟨.inl, fun h => h.elim (fun h => h) fun h => ?_⟩
      rw [h.2.2]
      exact hmem
    · simp [hg, or_comm]
  · simp [hcur]

theorem lookup_putObject (ctx : Context μ) (id k : Key) (obj : Instance μ) :
    (ctx.putObject id obj).objects.lookup k =
      if k = id then some obj else ctx.objects.lookup k := by
  unfold putObject
  simp only
  split <;> exact FinMap.lookup_insert id k obj ctx.objects

theorem evolves_putObject (id : Key) (obj : Instance μ) (ctx : Context μ) :
    Evolves [id] [] ctx (ctx.putObject id obj) := by
  have hhas (id' : Key) : (ctx.putObject id obj).Has id' ↔ ctx.Has id' ∨ id' = id := by
    unfold Has
    rw [lookup_putObject]
    split_ifs with h <;> simp [h]
  refine ⟨?_, fun id' h => ?_, fun id' h => ?_, fun g id' => ?_⟩
  · unfold putObject
    simp only
    split <;> rfl
  · rw [List.mem_singleton]
    exact (hhas id').1 h
  · rw [List.mem_singleton] at h
    exact .inl ((hhas id').2 h)
  · rw [List.mem_singleton]
    exact inGroup_putObject id obj ctx g id'

theorem evolves_storeObject (id : Key) (obj : Instance μ) (ctx : Context μ) :
    Evolves [] [] ctx (ctx.storeObject id obj) := by
  have hhas (id' : Key) : (ctx.storeObject id obj).Has id' ↔ ctx.Has id' := by
    unfold Has
    rw [lookup_storeObject]
    split_ifs with heq <;> simp [heq]
  have hgroups : (ctx.storeObject id obj).groups = ctx.groups ∧
      (ctx.storeObject id obj).currentGroup = ctx.currentGroup := by
    unfold storeObject
    split <;> exact ⟨rfl, rfl⟩
  refine ⟨hgroups.2, fun id' hid => .inl ((hhas id').1 hid), fun id' hid => .inl ?_,
    fun g id' => by simp [InGroup, hgroups.1]⟩
  exact (hhas id').2 (hid.resolve_right List.not_mem_nil)

theorem evolves_eraseObject (id : Key) (ctx : Context μ) :
    Evolves [] [id] ctx (ctx.eraseObject id) := by
  refine ⟨rfl, fun id' hid => .inl ?_, fun id' hid => ?_,
    fun g id' => by simp [InGroup, eraseObject]⟩
  · unfold Has eraseObject at *
    rw [FinMap.lookup_erase] at hid
    split_ifs at hid
    · cases hid
    · exact hid
  · unfold Has eraseObject at *
    rw [FinMap.lookup_erase, List.mem_singleton]
    split_ifs with heq
    · exact .inr heq
    · exact .inl (by simpa using hid)

theorem Evolves.mono (h : Evolves new erased ctx ctx') (hsub : erased ⊆ erased') :
    Evolves new erased' ctx ctx' :=
  ⟨h.current, h.has, fun id hid => (h.kept id hid).imp_right (hsub ·), h.groups⟩

end Context

/-! ## Parts of a request -/

/-- The id is one that was generated between the two worlds. -/
def World.Draws (w w' : World μ σ) (id : Key) : Prop :=
  ∃ n, w.drawn ≤ n ∧ n < w'.drawn ∧ id = w.ids n

/-- Objects with new ids were put, and nothing but `erased` was erased. -/
structure World.Evolves (erased : List Key) (w w' : World μ σ) : Prop where
  ids : w'.ids = w.ids
  drawn : w.drawn ≤ w'.drawn
  ctx : ∃ new, (∀ id ∈ new, w.Draws w' id) ∧ w.ctx.Evolves new erased w'.ctx

namespace World.Evolves

variable {erased erased' : List Key} {w w' w'' : World μ σ}

theorem refl (w : World μ σ) : w.Evolves erased w :=
  ⟨rfl, le_refl _, [], nofun, (Context.Evolves.refl _).mono (List.nil_subset _)⟩

theorem trans (h : w.Evolves erased w') (h' : w'.Evolves erased w'') : w.Evolves erased w'' := by
  obtain ⟨hids, hdrawn, new, hnew, hctx⟩ := h
  obtain ⟨hids', hdrawn', new', hnew', hctx'⟩ := h'
  refine ⟨hids'.trans hids, hdrawn.trans hdrawn', new ++ new', fun id hid => ?_,
    (hctx.trans hctx').mono (List.append_subset.2 ⟨List.Subset.refl _, List.Subset.refl _⟩)⟩
  rcases List.mem_append.1 hid with hid | hid
  · obtain ⟨n, hn, hn', heq⟩ := hnew id hid
    exact ⟨n, hn, hn'.trans_le hdrawn', heq⟩
  · obtain ⟨n, hn, hn', heq⟩ := hnew' id hid
    exact ⟨n, hdrawn.trans hn, hn', by rw [heq, hids]⟩

theorem mono (h : w.Evolves erased w') (hsub : erased ⊆ erased') : w.Evolves erased' w' :=
  ⟨h.ids, h.drawn, h.ctx.imp fun _ hctx => ⟨hctx.1, hctx.2.mono hsub⟩⟩

end World.Evolves

/-- The same of programs. -/
abbrev Evolves (erased : List Key) {α : Type} (p : ServerM μ σ α) : Prop :=
  Program.Keeps (fun w _ w' => w.Evolves erased w') p

/-- Programs on an object do it to the world around it. -/
abbrev EvolvesAround {α : Type} (p : ObjectM μ σ α) : Prop :=
  Program.Keeps (fun s _ s' => s.2.Evolves [] s'.2) p

theorem evolves_composes (erased : List Key) :
    Program.Composes (ω := SessionEffect) fun (w : World μ σ) _ w' => w.Evolves erased w' :=
  ⟨.refl, .trans⟩

theorem evolvesAround_composes : Program.Composes (ω := SessionEffect)
    fun (s : Instance μ × World μ σ) _ s' => s.2.Evolves [] s'.2 :=
  ⟨fun s => .refl s.2, .trans⟩

/-- Both tables are empty. -/
structure World.Cleared (w w' : World μ σ) : Prop where
  ids : w'.ids = w.ids
  drawn : w.drawn ≤ w'.drawn
  objects : w'.ctx.objects = ∅
  groups : w'.ctx.groups = ∅

/-- What serving a frame does to the tables. -/
inductive World.Serves (w w' : World μ σ) : Arrival → Prop
  /-- Nothing, though ids may be generated. -/
  | nothing (arrival : Arrival) (hids : w'.ids = w.ids) (hdrawn : w.drawn ≤ w'.drawn)
      (hhas : ∀ id, w'.ctx.Has id ↔ w.ctx.Has id)
      (hgroups : ∀ g id, w'.ctx.InGroup g id ↔ w.ctx.InGroup g id) : Serves w w' arrival
  | request (env : Envelope) (h : (w.inGroup env.group).Evolves [] w') : Serves w w' (.ok env)
  | destroy (env : Envelope) (hop : env.op = OP_DESTROY)
      (h : (w.inGroup env.group).Evolves [env.objectId] w') : Serves w w' (.ok env)
  | destroyGroup (env : Envelope) (hop : env.op = OP_DESTROY_GROUP) (ids : List Key)
      (hgroup : env.group ≠ 0) (hids : w.ctx.groups.lookup env.group = some ids)
      (h : ((w.inGroup env.group).dropGroup env.group).Evolves ids w') : Serves w w' (.ok env)
  | disconnect (env : Envelope) (hop : env.op = OP_DISCONNECT) (h : w.Cleared w') :
      Serves w w' (.ok env)

/-- The code of the application changes the tables only as `put_object` with generated ids
does. -/
structure Server.PutsOnly (srv : Server μ σ) : Prop where
  impl : ∀ m params s, World.Evolves [] s.2 (srv.impl m params s).2.2
  onCreateObject : ∀ ns klass w, World.Evolves [] w (srv.onCreateObject ns klass w).2
  authenticate : ∀ authenticate, srv.authModule = some authenticate →
    ∀ payload w, World.Evolves [] w (authenticate payload w).2
  onAuthenticated : ∀ identity w, World.Evolves [] w (srv.onAuthenticated identity w).2

/-! ## Programs on an object -/

theorem onFields_evolves {α : Type} (lookup : DynamicM α) :
    EvolvesAround (onFields lookup : ObjectM μ σ α) := by
  refine .ofState fun s => ?_
  simp only
  split <;> exact .refl s.2

theorem findMethodM_evolves (reg : Registry μ) (name : Key) :
    EvolvesAround (findMethodM reg name : ObjectM μ σ _) := by
  refine .ofState fun s => ?_
  simp only
  split <;> exact .refl s.2

theorem onObject_evolves {α : Type} {id : Key} {obj : Instance μ} {p : ObjectM μ σ α}
    (h : EvolvesAround p) : Evolves [] (onObject id obj p) := by
  intro w
  have hp := h (obj, w)
  unfold onObject
  rcases hrun : p (obj, w) with ⟨result, trace, obj', w'⟩
  rw [hrun] at hp
  exact World.Evolves.trans hp
    ⟨rfl, le_refl _, [], nofun, Context.evolves_storeObject id obj' w'.ctx⟩

theorem withNewObject_evolves {α : Type} {obj : Instance μ} {p : ObjectM μ σ α}
    (h : EvolvesAround p) : Evolves [] (withNewObject obj p) := by
  intro w
  have hp := h (obj, w)
  unfold withNewObject
  rcases hrun : p (obj, w) with ⟨_ | a, trace, obj', w'⟩ <;> rw [hrun] at hp <;> exact hp

section Hooks

variable {srv : Server μ σ} (hsrv : srv.PutsOnly)

include hsrv

theorem invoke_evolves (self : Option Key) (name : Key) (m : μ) (params : Fields) :
    EvolvesAround (invoke srv.impl self name m params) :=
  evolvesAround_composes.bind (.emit fun s => .refl s.2) fun _ => .ofState (hsrv.impl m params)

theorem call_evolves (self : Option Key) (name : Key) (params : Fields) :
    EvolvesAround (call srv.registry srv.impl self name params) := by
  refine evolvesAround_composes.bind (findMethodM_evolves _ _) fun found => ?_
  cases found with
  | some m => exact invoke_evolves hsrv self name m params
  | none =>
    refine evolvesAround_composes.bind (findMethodM_evolves _ _) fun fallback => ?_
    cases fallback with
    | some m => exact invoke_evolves hsrv self _ m _
    | none => exact evolvesAround_composes.throw _

theorem runHook_evolves (self : Option Key) (hook : Key) (params : Fields) :
    EvolvesAround (runHook srv.registry srv.impl self hook params) := by
  refine evolvesAround_composes.bind (findMethodM_evolves _ _) fun found => ?_
  cases found with
  | some m =>
    exact evolvesAround_composes.bind (.attempt (call_evolves hsrv self hook params))
      fun r => evolvesAround_composes.pure _
  | none => exact evolvesAround_composes.pure none

end Hooks

/-! ## Handlers -/

theorem evolves_erasing {α : Type} {erased : List Key} {p : ServerM μ σ α}
    (h : Evolves [] p) : Evolves erased p :=
  fun w => (h w).mono (List.nil_subset _)

theorem emit_evolves (erased : List Key) (e : SessionEffect) :
    Evolves erased (Program.emit e : ServerM μ σ Unit) :=
  .emit fun w => .refl w

theorem withObject_evolves {erased : List Key} {env : Envelope} {op : Key}
    {p : Instance μ → ServerM μ σ Unit} (h : ∀ obj, Evolves erased (p obj)) :
    Evolves erased (withObject env op p) := by
  have hcomp := evolves_composes erased (μ := μ) (σ := σ)
  refine hcomp.bind (hcomp.bind hcomp.get fun w => hcomp.pure _) fun found => ?_
  cases found with
  | none => exact emit_evolves erased _
  | some obj => exact h obj

theorem fileObject_evolves (obj : Instance μ) : Evolves [] (fileObject obj : ServerM μ σ Key) := by
  intro w
  refine ⟨rfl, Nat.le_succ _, [w.ids w.drawn], fun id hid => ?_,
    Context.evolves_putObject (w.ids w.drawn) obj w.ctx⟩
  exact ⟨w.drawn, le_refl _, Nat.lt_succ_self _, List.mem_singleton.1 hid⟩

namespace Server

variable {srv : Server μ σ} (hsrv : srv.PutsOnly)

include hsrv

theorem handleConnect_evolves (env : Envelope) : Evolves [] (srv.handleConnect env) := by
  have hcomp := evolves_composes [] (μ := μ) (σ := σ)
  unfold handleConnect
  split
  · exact emit_evolves _ _
  · next authenticate hauth =>
    refine hcomp.bind (.ofState (hsrv.authenticate authenticate hauth env.payload))
      fun (accepted, identity) => ?_
    cases accepted with
    | true =>
      exact hcomp.bind (emit_evolves _ _) fun _ =>
        hcomp.bind (.ofState (hsrv.onAuthenticated identity)) fun _ => emit_evolves _ _
    | false => exact emit_evolves _ _

omit hsrv in
theorem handleDescribe_evolves (env : Envelope) : Evolves [] (srv.handleDescribe env) := by
  refine (evolves_composes []).bind ((evolves_composes []).lift _) fun (requested, _) => ?_
  simp only
  split
  · exact emit_evolves _ _
  · split <;> exact emit_evolves _ _

theorem constructHook_evolves (p : Fields) : EvolvesAround (srv.constructHook p) := by
  have hcomp := evolvesAround_composes (μ := μ) (σ := σ)
  refine hcomp.bind (findMethodM_evolves _ _) fun found => ?_
  cases found with
  | none => exact hcomp.pure _
  | some m =>
    refine .attempt (hcomp.bind (hcomp.lift _) fun _ => ?_)
    exact hcomp.bind (call_evolves hsrv _ _ _) fun _ => hcomp.pure _

theorem handleInstantiate_evolves (env : Envelope) : Evolves [] (srv.handleInstantiate env) := by
  have hcomp := evolves_composes [] (μ := μ) (σ := σ)
  refine hcomp.bind (hcomp.lift _) fun (klass, p) => ?_
  refine hcomp.bind (hcomp.lift _) fun (named, p) => ?_
  rcases named with what | ns
  · exact emit_evolves _ _
  simp only
  split
  · refine hcomp.bind (.attempt (.ofState (hsrv.onCreateObject ns klass))) fun made => ?_
    rcases made with what | _ | obj
    · exact emit_evolves _ _
    · exact emit_evolves _ _
    · refine hcomp.bind (withNewObject_evolves (constructHook_evolves hsrv p))
        fun (built, obj) => ?_
      cases built with
      | error what => exact emit_evolves _ _
      | ok u => exact hcomp.bind (fileObject_evolves obj) fun id => emit_evolves _ _
  · exact emit_evolves _ _

theorem handleClear_evolves (env : Envelope) : Evolves [] (srv.handleClear env) := by
  have hcomp := evolvesAround_composes (μ := μ) (σ := σ)
  refine withObject_evolves fun obj => (evolves_composes []).bind (onObject_evolves ?_)
    fun _ => emit_evolves _ _
  have hreset : EvolvesAround (srv.resetObject) :=
    hcomp.bind (onFields_evolves _) fun _ => hcomp.bind (onFields_evolves _) fun _ =>
      .modify fun s => .refl s.2
  exact hcomp.bind hreset fun _ => hcomp.bind (runHook_evolves hsrv _ _ _) fun _ => hcomp.pure _

omit hsrv in
theorem applyPatch_evolves (patch : Fields) : EvolvesAround (srv.applyPatch patch) :=
  evolvesAround_composes.forEach fun _ _ => onFields_evolves _

theorem handleSet_evolves (env : Envelope) : Evolves [] (srv.handleSet env) := by
  have hcomp := evolvesAround_composes (μ := μ) (σ := σ)
  refine withObject_evolves fun obj => (evolves_composes []).bind (onObject_evolves ?_)
    fun patched => ?_
  · refine hcomp.bind (runHook_evolves hsrv _ _ _) fun ran => ?_
    rcases ran with _ | what | patched
    · exact hcomp.bind (applyPatch_evolves _) fun _ => hcomp.pure _
    · exact hcomp.pure _
    · exact hcomp.bind (applyPatch_evolves _) fun _ => hcomp.pure _
  · cases patched <;> exact emit_evolves _ _

omit hsrv in
theorem project_evolves (keys : List Key) (result : Fields) :
    EvolvesAround (srv.project keys result) := by
  have hcomp := evolvesAround_composes (μ := μ) (σ := σ)
  induction keys generalizing result with
  | nil => exact hcomp.pure result
  | cons k keys ih =>
    refine hcomp.bind (onFields_evolves _) fun found => ?_
    cases found with
    | none => exact ih result
    | some v => exact hcomp.bind (hcomp.lift _) fun r => ih r.2

theorem handleGet_evolves (env : Envelope) : Evolves [] (srv.handleGet env) := by
  have hcomp := evolvesAround_composes (μ := μ) (σ := σ)
  refine withObject_evolves fun obj => (evolves_composes []).bind (onObject_evolves ?_)
    fun _ => emit_evolves _ _
  refine hcomp.bind ?_ fun result => hcomp.bind (runHook_evolves hsrv _ _ _) fun ran => ?_
  · cases (env.payload.map Prod.fst).filter isProjectionKey with
    | nil => exact hcomp.bind hcomp.get fun _ => hcomp.pure _
    | cons k keys => exact project_evolves _ _
  · rcases ran with _ | what | result <;> exact hcomp.pure _

theorem handleCall_evolves (env : Envelope) : Evolves [] (srv.handleCall env) := by
  have hcomp := evolves_composes [] (μ := μ) (σ := σ)
  refine withObject_evolves fun obj => hcomp.bind (hcomp.lift _) fun ((name, args), _) => ?_
  refine hcomp.bind (.attempt (onObject_evolves (call_evolves hsrv _ _ _))) fun called => ?_
  cases called <;>
  · simp only
    split
    · exact hcomp.pure _
    · exact emit_evolves _ _

theorem destruct_evolves (id : Key) (obj : Instance μ) : Evolves [] (srv.destruct id obj) :=
  onObject_evolves (evolvesAround_composes.bind (runHook_evolves hsrv _ _ _) fun _ =>
    evolvesAround_composes.pure _)

omit hsrv in
theorem eraseObject_evolves (id : Key) :
    Evolves [id] (modifyCtx fun ctx => ctx.eraseObject id : ServerM μ σ Unit) :=
  .modify fun w => ⟨rfl, le_refl _, [], nofun, Context.evolves_eraseObject id w.ctx⟩

theorem handleDestroy_evolves (env : Envelope) :
    Evolves [env.objectId] (srv.handleDestroy env) := by
  have hcomp := evolves_composes [env.objectId] (μ := μ) (σ := σ)
  refine withObject_evolves fun obj =>
    hcomp.bind (evolves_erasing (destruct_evolves hsrv _ obj)) fun _ => ?_
  exact hcomp.bind (eraseObject_evolves _) fun _ => emit_evolves _ _

theorem destroyMembers_evolves (ids : List Key) :
    Evolves ids (Program.forEach srv.destroyMember ids) := by
  have hcomp := evolves_composes ids (μ := μ) (σ := σ)
  refine hcomp.forEach fun id hid => ?_
  refine hcomp.bind (hcomp.bind hcomp.get fun w => hcomp.pure _) fun found => ?_
  cases found with
  | none => exact hcomp.pure _
  | some obj =>
    refine hcomp.bind (evolves_erasing (destruct_evolves hsrv id obj)) fun _ => fun w => ?_
    exact (eraseObject_evolves id w).mono fun k hk => List.mem_singleton.1 hk ▸ hid

theorem destructMembers_evolves (ids : List Key) :
    Evolves [] (Program.forEach srv.destructMember ids) := by
  have hcomp := evolves_composes [] (μ := μ) (σ := σ)
  refine hcomp.forEach fun id _ => ?_
  refine hcomp.bind (hcomp.bind hcomp.get fun w => hcomp.pure _) fun found => ?_
  cases found with
  | none => exact hcomp.pure _
  | some obj => exact destruct_evolves hsrv id obj

/-! ## Requests -/

/-- The tables are cleared, unless a lookup throws before. -/
theorem cleanupContext_spec (w : World μ σ) :
    World.Evolves [] w (srv.cleanupContext w).state ∨
      World.Cleared w (srv.cleanupContext w).state := by
  have hloop := destructMembers_evolves hsrv (srv.iterate.1 w.ctx.objects.keys) w
  rcases hrun : Program.forEach srv.destructMember (srv.iterate.1 w.ctx.objects.keys) w with
    ⟨e | u, trace, w'⟩ <;> rw [hrun] at hloop
  · left
    have hstate : (srv.cleanupContext w).state = w' := by
      unfold cleanupContext
      rw [Program.bind_ok (Program.get_run w), Program.bind_error hrun]
    rwa [hstate]
  · right
    have hstate : (srv.cleanupContext w).state =
        { w' with ctx := { w'.ctx with objects := ∅, groups := ∅ } } := by
      unfold cleanupContext
      rw [Program.bind_ok (Program.get_run w), Program.bind_ok hrun]
      rfl
    rw [hstate]
    exact ⟨hloop.ids, hloop.drawn, rfl, rfl⟩

theorem handle_serves {env : Envelope} {o : Op} (ho : env.op = o.token) (w : World μ σ) :
    World.Serves w (srv.handle env o (w.inGroup env.group)).state (.ok env) := by
  cases o with
  | connect => exact .request env (handleConnect_evolves hsrv env _)
  | describe => exact .request env (handleDescribe_evolves env _)
  | instantiate => exact .request env (handleInstantiate_evolves hsrv env _)
  | clear => exact .request env (handleClear_evolves hsrv env _)
  | set => exact .request env (handleSet_evolves hsrv env _)
  | get => exact .request env (handleGet_evolves hsrv env _)
  | call => exact .request env (handleCall_evolves hsrv env _)
  | destroy => exact .destroy env ho (handleDestroy_evolves hsrv env _)
  | destroyGroup =>
    by_cases hknown : w.ctx.groups.lookup env.group = none ∨ env.group = 0
    · rw [show srv.handle env .destroyGroup = srv.handleDestroyGroup env from rfl,
        handleDestroyGroup_unknown srv (w := w.inGroup env.group) hknown]
      exact .request env (.refl _)
    · obtain ⟨hids, hgroup⟩ := not_or.1 hknown
      obtain ⟨ids, hids⟩ := Option.ne_none_iff_exists'.1 hids
      refine .destroyGroup env ho ids hgroup hids ?_
      rw [show srv.handle env .destroyGroup = srv.handleDestroyGroup env from rfl,
        handleDestroyGroup_known srv (w := w.inGroup env.group) hids hgroup]
      refine (evolves_composes ids).bind (fun v => ?_) (fun _ => emit_evolves _ _) _
      exact (destroyMembers_evolves hsrv _ v).mono fun id hid =>
        ((srv.iterate.2 ids).mem_iff).1 hid
  | disconnect =>
    have hspec := cleanupContext_spec hsrv (w.inGroup env.group)
    rcases hrun : srv.cleanupContext (w.inGroup env.group) with ⟨result, trace, w'⟩
    have hstate : (srv.handle env .disconnect (w.inGroup env.group)).state = w' := by
      show (srv.handleDisconnect env (w.inGroup env.group)).state = w'
      unfold handleDisconnect
      cases result with
      | error e => rw [Program.bind_error hrun]
      | ok u =>
        rw [Program.bind_ok hrun]
        rfl
    rw [hrun] at hspec
    rw [hstate]
    rcases hspec with hevolves | hcleared
    · exact .request env hevolves
    · exact .disconnect env ho ⟨hcleared.ids, hcleared.drawn, hcleared.objects, hcleared.groups⟩
  | dictionary => exact .request env (.refl _)
  | help => exact .request env (.refl _)

omit hsrv in
theorem relay_serves (upstream : Envelope → σ → Except Text Fields × σ) (env : Envelope)
    (w : World μ σ) : World.Serves w (relay upstream env w).state (.ok env) := by
  have hkeeps : Program.Keeps (fun (w : World μ σ) _ w' => w'.ids = w.ids ∧ w.drawn ≤ w'.drawn ∧
      w'.ctx = w.ctx) (relay upstream env) := by
    have hcomp : Program.Composes (ω := SessionEffect) fun (w : World μ σ) _ w' =>
        w'.ids = w.ids ∧ w.drawn ≤ w'.drawn ∧ w'.ctx = w.ctx :=
      ⟨fun w => ⟨rfl, le_refl _, rfl⟩, fun h h' =>
        ⟨h'.1.trans h.1, h.2.1.trans h'.2.1, h'.2.2.trans h.2.2⟩⟩
    refine hcomp.bind (.ofState fun w => ⟨rfl, Nat.le_succ _, rfl⟩) fun _ =>
      hcomp.bind (.ofState hcomp.refl) fun _ =>
        hcomp.bind (.attempt (.ofState hcomp.refl)) fun answered => ?_
    cases answered <;> exact .emit hcomp.refl
  obtain ⟨hids, hdrawn, hctx⟩ := hkeeps w
  exact .nothing _ hids hdrawn (fun _ => by rw [hctx]) fun _ _ => by rw [hctx]

theorem serviceSession_serves (arrival : Arrival) (w : World μ σ) :
    World.Serves w (srv.serviceSession arrival w).state arrival := by
  have hnothing : World.Serves w w arrival :=
    .nothing _ rfl (le_refl _) (fun _ => .rfl) fun _ _ => .rfl
  cases arrival with
  | error what => exact hnothing
  | ok env =>
    rw [serviceSession_state]
    rcases srv.handleRequest_cases env with ⟨op, code, message, h⟩ | ⟨upstream, -, h⟩ | h <;> rw [h]
    · exact hnothing
    · exact relay_serves upstream env w
    · cases ho : Op.find env.op with
      | some o =>
        rw [srv.dispatch_run ho]
        exact handle_serves hsrv (Op.token_of_find ho).symm w
      | none =>
        unfold dispatch
        rw [ho]
        exact .request env (.refl _)

end Server

end Bison
