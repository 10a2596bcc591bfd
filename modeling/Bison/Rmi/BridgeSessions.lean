import Bison.Lib.Machine
import Bison.Rmi.Bridge
import Bison.Rmi.Destruct
import Bison.Rmi.Ids

/-!
# The sessions of a bridge

All sessions of a bridge share one upstream session and its table of objects (bridge.cpp). A
request is relayed with the id of its session as the group, and when a session ends, its group is
destroyed upstream.

The frames of the bridge arrive upstream in the order in which they are sent, so an interleaving
of the sessions is a run in which each relayed request, and each destroyGroup, is one step.

- `Tracked`: the invariant of the upstream tables. An object filed for a session that has not
  ended is recorded in the session's group.
- `cleanedUp_iff`: **main result**, the end of a session removes what its requests have created,
  and nothing of another session, exactly if its id is not 0 and no lookup of a `__destruct`
  throws.
-/

namespace Bison

variable {μ ν σ : Type}

/-! ## Which objects belong to a session -/

namespace History

variable {h : History μ σ} {arrival : Arrival} {w' : World μ σ} {ended : List Key}

/-- What the upstream tables say of the sessions that are not in `ended`. -/
structure Tracked (ended : List Key) (h : History μ σ) : Prop where
  recorded : h.Recorded
  filed : ∀ id, h.world.ctx.Has id → ∃ g, h.FiledBy g id
  kept : ∀ g id, g ≠ 0 → g ∉ ended → h.world.ctx.Has id → h.FiledBy g id →
    h.world.ctx.InGroup g id

theorem Tracked.mono {ended' : List Key} (htracked : h.Tracked ended) (hended : ended ⊆ ended')
    : h.Tracked ended' :=
  ⟨htracked.recorded, htracked.filed, fun g id hg hnot =>
    htracked.kept g id hg fun hmem => hnot (hended hmem)⟩

/-- Who filed an object is settled when it is filed. -/
theorem FiledBy.of_next {g g' id : Key} (hids : w'.ids = h.world.ids)
    (hdrawn : h.world.drawn ≤ w'.drawn) (hdistinct : w'.Distinct) (hold : h.FiledBy g' id)
    (hnew : (h.next arrival w').FiledBy g id) : h.FiledBy g id := by
  rwa [hnew.unique hdistinct (hold.next hids hdrawn)]

/-- The part of a request that works on the tables keeps the objects tracked. -/
theorem Tracked.evolves (htracked : h.Tracked ended) {v : World μ σ} {erased : List Key}
    (hids : v.ids = h.world.ids) (hdrawn : v.drawn = h.world.drawn)
    (hcurrent : v.ctx.currentGroup = arrivalGroup arrival)
    (hhas : ∀ id, v.ctx.Has id ↔ h.world.ctx.Has id)
    (hgroups : ∀ g id, g ∉ ended → h.world.ctx.InGroup g id → v.ctx.InGroup g id)
    (hevolves : v.Evolves erased w') (hdistinct : w'.Distinct)
    (hrecorded : (h.next arrival w').Recorded) : (h.next arrival w').Tracked ended := by
  obtain ⟨hids', hdrawn', new, hnew, hctx⟩ := hevolves
  have hnext : w'.ids = h.world.ids := hids'.trans hids
  have hlater : h.world.drawn ≤ w'.drawn := hdrawn ▸ hdrawn'
  have hfresh {id : Key} (hid : id ∈ new) :
    (h.next arrival w').FiledBy (arrivalGroup arrival) id := by
    obtain ⟨n, hn, hn', rfl⟩ := hnew id hid
    exact ⟨n, hn', congrFun hids'.symm n, if_neg (by omega)⟩
  refine ⟨hrecorded, fun id hid => ?_, fun g id hg hnot hid hfiled => ?_⟩
  · rcases hctx.has id hid with hid | hid
    · obtain ⟨g, hg⟩ := htracked.filed id ((hhas id).1 hid)
      exact ⟨g, hg.next hnext hlater⟩
    · exact ⟨_, hfresh hid⟩
  · show w'.ctx.InGroup g id
    rw [hctx.groups]
    rcases hctx.has id hid with hid | hid
    · -- The object was there before the request.
      have hid := (hhas id).1 hid
      obtain ⟨g', hg'⟩ := htracked.filed id hid
      have hfiled := FiledBy.of_next hnext hlater hdistinct hg' hfiled
      exact .inl (hgroups g id hnot (htracked.kept g id hg hnot hid hfiled))
    · right
      exact ⟨(hfiled.unique hdistinct (hfresh hid)).trans hcurrent.symm, hg, hid⟩

/-- One frame keeps the objects tracked, but for the group that it destroys. -/
theorem Tracked.next (htracked : h.Tracked ended) (hserves : World.Serves h.world w' arrival)
    (hdistinct : w'.Distinct)
    (hdrop : ∀ env, arrival = .ok env → env.op = OP_DESTROY_GROUP → env.group ∈ ended) :
    (h.next arrival w').Tracked ended := by
  have hrecorded := htracked.recorded.next hserves hdistinct
  cases hserves with
  | nothing _ hids hdrawn hhas hgroups =>
    refine ⟨hrecorded, fun id hid => ?_, fun g id hg hnot hid hfiled => ?_⟩
    · obtain ⟨g, hg⟩ := htracked.filed id ((hhas id).1 hid)
      exact ⟨g, hg.next hids hdrawn⟩
    · have hid := (hhas id).1 hid
      obtain ⟨g', hg'⟩ := htracked.filed id hid
      have hfiled := FiledBy.of_next hids hdrawn hdistinct hg' hfiled
      exact (hgroups g id).2 (htracked.kept g id hg hnot hid hfiled)
  | request env hevolves =>
    exact htracked.evolves (v := h.world.inGroup env.group) rfl rfl rfl (fun _ => .rfl)
      (fun _ _ _ h => h) hevolves hdistinct hrecorded
  | destroy env hop hevolves =>
    exact htracked.evolves (v := h.world.inGroup env.group) rfl rfl rfl (fun _ => .rfl)
      (fun _ _ _ h => h) hevolves hdistinct hrecorded
  | destroyGroup env hop ids hgroup hids hevolves =>
    refine htracked.evolves (v := (h.world.inGroup env.group).dropGroup env.group) rfl rfl rfl
      (fun _ => .rfl) (fun g id hnot hin => ?_) hevolves hdistinct hrecorded
    have hne : g ≠ env.group := by
      rintro rfl
      exact hnot (hdrop env rfl hop)
    simpa only [Context.InGroup, World.dropGroup, World.inGroup,
      FinMap.lookup_erase_ne hne] using hin
  | disconnect env hop hcleared =>
    have hnone (id : Key) : ¬ w'.ctx.Has id := by
      unfold Context.Has
      rw [hcleared.objects]
      simp
    exact ⟨hrecorded, fun id hid => (hnone id hid).elim, fun g id _ _ hid => (hnone id hid).elim⟩

/-- After a frame of another group, no object belongs to `g` that did not before. -/
theorem Tracked.belonged (htracked : h.Tracked ended)
    (hserves : World.Serves h.world w' arrival) (hdistinct : w'.Distinct) {g id : Key}
    (hother : arrivalGroup arrival ≠ g) (hid : w'.ctx.Has id)
    (hfiled : (h.next arrival w').FiledBy g id) : h.world.ctx.Has id ∧ h.FiledBy g id := by
  obtain ⟨hids, hdrawn⟩ := serves_drawn hserves
  have hbefore : h.world.ctx.Has id := by
    -- What the frame has put belongs to its own group.
    have hnew {v : World μ σ} {erased : List Key} (hvids : v.ids = h.world.ids)
        (hvdrawn : v.drawn = h.world.drawn) (hhas : ∀ id, v.ctx.Has id ↔ h.world.ctx.Has id)
        (hevolves : v.Evolves erased w') : h.world.ctx.Has id := by
      obtain ⟨hids', hdrawn', new, hnew, hctx⟩ := hevolves
      rcases hctx.has id hid with hid | hmem
      · exact (hhas id).1 hid
      · obtain ⟨n, hn, hn', heq⟩ := hnew id hmem
        have hown : (h.next arrival w').FiledBy (arrivalGroup arrival) id :=
          ⟨n, hn', heq.trans (congrFun hids'.symm n), if_neg (by omega)⟩
        exact (hother (hown.unique hdistinct hfiled)).elim
    cases hserves with
    | nothing _ _ _ hhas _ => exact (hhas id).1 hid
    | request env hevolves =>
      exact hnew (v := h.world.inGroup env.group) rfl rfl (fun _ => .rfl) hevolves
    | destroy env hop hevolves =>
      exact hnew (v := h.world.inGroup env.group) rfl rfl (fun _ => .rfl) hevolves
    | destroyGroup env hop ids hgroup hgroups hevolves =>
      exact hnew (v := (h.world.inGroup env.group).dropGroup env.group) rfl rfl
        (fun _ => .rfl) hevolves
    | disconnect env hop hcleared =>
      unfold Context.Has at hid
      rw [hcleared.objects] at hid
      simp at hid
  obtain ⟨g', hg'⟩ := htracked.filed id hbefore
  exact ⟨hbefore, FiledBy.of_next hids hdrawn hdistinct hg' hfiled⟩

/-! ## The end of a session, upstream -/

section Ending

variable {srv : Server μ σ} {s requestId : Key}

/-- The request with which a bridge ends a session, as it arrives upstream. -/
def ending (s requestId : Key) : Arrival := .ok (Server.destroyGroupEnvelope s requestId).crossed

/-- When a session ends, its objects can all be destroyed. The group 0 is none: it must not have
any objects. -/
def CanEnd (srv : Server μ σ) (h : History μ σ) (s : Key) : Prop :=
  if s = 0 then ∀ id, h.FiledBy 0 id → ¬ h.world.ctx.Has id
  else ∀ ids, h.world.ctx.groups.lookup s = some ids →
    srv.Destructible (srv.iterate.1 ids) ((h.world.inGroup s).dropGroup s)

theorem serve_ending_unknown (hunknown : h.world.ctx.groups.lookup s = none ∨ s = 0) :
    (h.serve srv (ending s requestId)).world = h.world.inGroup s := by
  show (srv.serviceSession (.ok _) h.world).state = _
  rw [Server.serviceSession_state,
    Server.handleRequest_local (o := .destroyGroup) srv rfl rfl rfl nofun]
  show (srv.handleDestroyGroup (Server.destroyGroupEnvelope s requestId).crossed
    (h.world.inGroup s)).state = _
  rw [Server.handleDestroyGroup_unknown srv hunknown]
  rfl

theorem serve_ending_known {ids : List Key} (hids : h.world.ctx.groups.lookup s = some ids)
    (hs : s ≠ 0) : (h.serve srv (ending s requestId)).world =
      (Program.forEach srv.destroyMember (srv.iterate.1 ids)
        ((h.world.inGroup s).dropGroup s)).state := by
  show (srv.serviceSession (.ok _) h.world).state = _
  rw [Server.serviceSession_state,
    Server.handleRequest_local (o := .destroyGroup) srv rfl rfl rfl nofun]
  show (srv.handleDestroyGroup (Server.destroyGroupEnvelope s requestId).crossed
    (h.world.inGroup s)).state = _
  rw [Server.handleDestroyGroup_known srv hids hs]
  exact Program.bind_emit_state _ _ _

/-- When a session ends, exactly what can be destroyed is destroyed. -/
theorem Tracked.ending_iff (hsrv : srv.PutsOnly) (hhooks : srv.DestructsOnly)
    (htracked : h.Tracked ended) (hs : s ∉ ended)
    (hdistinct : (h.serve srv (ending s requestId)).world.Distinct) :
    (∀ id, (h.serve srv (ending s requestId)).FiledBy s id →
      ¬ (h.serve srv (ending s requestId)).world.ctx.Has id) ↔ CanEnd srv h s := by
  obtain ⟨hids, hdrawn⟩ := serves_drawn
    (Server.serviceSession_serves hsrv (ending s requestId) h.world)
  -- A session's object that is left was its object before, so the group says so.
  have hbelongs {id : Key} (hid : h.world.ctx.Has id)
      (hfiled : (h.serve srv (ending s requestId)).FiledBy s id) : h.FiledBy s id := by
    obtain ⟨g', hg'⟩ := htracked.filed id hid
    exact FiledBy.of_next hids hdrawn hdistinct hg' hfiled
  unfold CanEnd
  by_cases hzero : s = 0
  · rw [if_pos hzero]
    have hworld : (h.serve srv (ending s requestId)).world = _ := serve_ending_unknown (.inr hzero)
    subst hzero
    constructor
    · intro hgone id hfiled hid
      refine hgone id (hfiled.next hids hdrawn) ?_
      rw [hworld]
      exact hid
    · intro hnone id hfiled hid
      rw [hworld] at hid
      exact hnone id (hbelongs hid hfiled) hid
  rw [if_neg hzero]
  cases hgroup : h.world.ctx.groups.lookup s with
  | none =>
    refine iff_of_true (fun id hfiled hid => ?_) nofun
    rw [serve_ending_unknown (.inl hgroup)] at hid
    have hin := htracked.kept s id hzero hs hid (hbelongs hid hfiled)
    rw [Context.InGroup, hgroup] at hin
    cases hin
  | some ids =>
    have hworld : (h.serve srv (ending s requestId)).world = _ := serve_ending_known hgroup hzero
    have hmem {id : Key} : h.world.ctx.InGroup s id ↔ id ∈ srv.iterate.1 ids := by
      rw [Context.InGroup, hgroup, (srv.iterate.2 ids).mem_iff]
      rfl
    constructor
    · rintro hgone _ ⟨⟩
      by_contra hstuck
      obtain ⟨id, hid, hthere⟩ := Server.destroyMembers_stuck hstuck
      have hfiled := (htracked.recorded.filed s id (hmem.2 hid)).2
      refine hgone id (hfiled.next hids hdrawn) ?_
      rw [hworld]
      exact hthere
    · intro hcan id hfiled hid
      rw [hworld] at hid
      obtain ⟨hnot, hid⟩ := Server.destroyMembers_done hhooks (hcan ids rfl) hid
      exact hnot (hmem.1 (htracked.kept s id hzero hs hid (hbelongs hid hfiled)))

/-- Objects of other sessions stay. -/
theorem Tracked.ending_others (hsrv : srv.PutsOnly) (htracked : h.Tracked ended)
    (hdistinct : (h.serve srv (ending s requestId)).world.Distinct) {g id : Key} (hne : g ≠ s)
    (hfiled : h.FiledBy g id) (hid : h.world.ctx.Has id) :
    (h.serve srv (ending s requestId)).world.ctx.Has id := by
  have hserves := Server.serviceSession_serves hsrv (ending s requestId) h.world
  obtain ⟨hids, hdrawn⟩ := serves_drawn hserves
  have hkept {v : World μ σ} {erased : List Key} (hthere : v.ctx.Has id) (hnot : id ∉ erased)
      (hevolves : v.Evolves erased (h.serve srv (ending s requestId)).world) :
      (h.serve srv (ending s requestId)).world.ctx.Has id := by
    obtain ⟨-, -, new, -, hctx⟩ := hevolves
    exact (hctx.kept id (.inl hthere)).resolve_right hnot
  cases hserves with
  | nothing _ _ _ hhas _ => exact (hhas id).2 hid
  | request env hevolves => exact hkept (v := h.world.inGroup s) hid List.not_mem_nil hevolves
  | destroy env hop _ => cases hop
  | destroyGroup env hop ids hgroup hgroups hevolves =>
    refine hkept (v := (h.world.inGroup s).dropGroup s) hid (fun hmem => hne ?_) hevolves
    have hin : h.world.ctx.InGroup s id := by
      rw [Context.InGroup]
      exact hgroups.symm ▸ hmem
    exact hfiled.unique (hdistinct.earlier hids hdrawn) (htracked.recorded.filed s id hin).2
  | disconnect env hop _ => cases hop

end Ending

end History

/-! ## The bridge -/

namespace Server

theorem serviceSession_refused (srv : Server μ σ) {env : Envelope}
    (h : ¬ (env.kind = KIND_REQUEST ∧ env.version = PROTOCOL_VERSION)) (w : World μ σ) :
    (srv.serviceSession (.ok env) w).state = w := by
  rw [serviceSession_state]
  unfold handleRequest
  split
  · rfl
  split
  · rfl
  next hkind =>
  split
  · rfl
  next hversion => exact (h ⟨not_not.1 hkind, not_not.1 hversion⟩).elim

/-- The context of a session without objects is cleaned up at once. -/
theorem cleanupContext_empty (srv : Server μ σ) {w : World μ σ} (h : w.ctx.objects = ∅) :
    (srv.cleanupContext w).state = { w with ctx := { w.ctx with objects := ∅, groups := ∅ } } := by
  have hnone : srv.iterate.1 w.ctx.objects.keys = [] := by
    rw [h]
    exact List.Perm.eq_nil (srv.iterate.2 [])
  unfold cleanupContext
  rw [Program.bind_ok (Program.get_run w), hnone]
  rfl

/-- When a session of a bridge ends, its group is destroyed upstream. -/
theorem onto_teardownSession (own : Server ν (History μ σ)) (srv : Server μ σ)
    {w : World ν (History μ σ)} (h : w.ctx.objects = ∅) :
    ((own.onto srv).teardownSession w).state.app =
      w.app.serve srv (History.ending w.ctx.sessionId (w.ids w.drawn)) := by
  have hended : (own.onto srv).onSessionDestroyed w = ⟨.ok (), [], { w with
      app := w.app.serve srv (History.ending w.ctx.sessionId (w.ids w.drawn)),
        drawn := w.drawn + 1 }⟩ := by
    have hsend := sendUpstream_run (w := { w with drawn := w.drawn + 1 })
      (show asUpstream own.registry srv (destroyGroupEnvelope w.ctx.sessionId (w.ids w.drawn))
        w.app = _ from rfl)
    show (generateId >>= fun requestId => sessionId >>= fun s =>
      tryCatch (sendUpstream (asUpstream own.registry srv) (destroyGroupEnvelope s requestId)) >>=
        fun _ => pure ()) w = _
    rw [Program.bind_ok (generateId_run w), Program.bind_ok (sessionId_run _),
      Program.bind_ok hsend]
    rfl
  have hclean (v : World ν (History μ σ)) (hv : v.ctx.objects = ∅) :
      ((own.onto srv).cleanupContext v).state.app = v.app := by
    rw [cleanupContext_empty _ hv]
  rw [teardownSession, Program.bind_ok hended]
  exact hclean _ h

end Server

/-- The sessions of a bridge (`sessions_`), those that have ended, and the upstream. What relayed
requests leave of a session's context is its id. -/
structure Bridge (μ σ : Type) where
  live : List Key := []
  ended : List Key := []
  upstream : History μ σ
  ids : Nat → Key
  drawn : Nat := 0

inductive BridgeAction where
  /-- A session is accepted, with a generated id. -/
  | connects
  /-- A request that is to be relayed arrives. -/
  | relays (session : Key) (env : Envelope)
  | tearsDown (session : Key)

namespace Bridge

variable (own : Server ν (History μ σ)) (srv : Server μ σ)

/-- The world of a session. -/
def session (b : Bridge μ σ) (s : Key) : World ν (History μ σ) :=
  { ctx := { sessionId := s }, app := b.upstream, ids := b.ids, drawn := b.drawn }

/-- What a session has done is done to the bridge. -/
def after (b : Bridge μ σ) (w : World ν (History μ σ)) : Bridge μ σ :=
  { b with upstream := w.app, drawn := w.drawn }

/-- One action. Sessions have distinct ids. -/
def step (b : Bridge μ σ) : BridgeAction → Option (Bridge μ σ)
  | .connects =>
    if b.ids b.drawn ∈ b.live ∨ b.ids b.drawn ∈ b.ended then none
    else some { b with live := b.ids b.drawn :: b.live, drawn := b.drawn + 1 }
  | .relays s env =>
    if s ∈ b.live ∧ (Op.find env.op).any Op.relayed then
      some (b.after ((own.onto srv).serviceSession (.ok env) (b.session s)).state)
    else none
  | .tearsDown s =>
    if s ∈ b.live then
      let b := b.after ((own.onto srv).teardownSession (b.session s)).state
      some { b with live := b.live.erase s, ended := s :: b.ended }
    else none

variable {own srv} {b b' : Bridge μ σ} {s : Key} {env : Envelope}

/-- A request is refused, or served upstream in the group of its session. -/
theorem relays_upstream (h : step own srv b (.relays s env) = some b') :
    s ∈ b.live ∧ b'.live = b.live ∧ b'.ended = b.ended ∧
      (b'.upstream = b.upstream ∨ ∃ relayed : Envelope, relayed.group = s ∧
        relayed.op ≠ OP_DESTROY_GROUP ∧ b'.upstream = b.upstream.serve srv (.ok relayed)) := by
  simp only [step] at h
  split at h
  · next hlive =>
    obtain ⟨hlive, hop⟩ := hlive
    cases h
    refine ⟨hlive, rfl, rfl, ?_⟩
    obtain ⟨o, ho, hrelayed⟩ := (Option.any_eq_true _ _).1 hop
    by_cases hvalid : env.kind = KIND_REQUEST ∧ env.version = PROTOCOL_VERSION
    · have henv : Server.Relayed env := ⟨hvalid.1, hvalid.2, o, ho, hrelayed⟩
      right
      refine ⟨Server.arrivedUpstream (ν := ν) (b.session s) env, rfl, ?_, ?_⟩
      · intro hdestroy
        have hfind : Op.find env.op = some .destroyGroup := by
          rw [show env.op = OP_DESTROY_GROUP from hdestroy]
          rfl
        rw [ho] at hfind
        cases hfind
        cases hrelayed
      · rw [Server.onto_serviceSession own srv henv]
        rfl
    · left
      show ((own.onto srv).serviceSession (.ok env) (b.session s)).state.app = b.upstream
      rw [Server.serviceSession_refused _ hvalid]
      rfl
  · cases h

/-- The end of a session is served upstream. -/
theorem tearsDown_upstream (h : step own srv b (.tearsDown s) = some b') :
    s ∈ b.live ∧ b'.live = b.live.erase s ∧ b'.ended = s :: b.ended ∧
      ∃ requestId, b'.upstream = b.upstream.serve srv (History.ending s requestId) := by
  simp only [step] at h
  split at h
  · next hlive =>
    cases h
    exact ⟨hlive, rfl, rfl, b.ids b.drawn, Server.onto_teardownSession own srv rfl⟩
  · cases h

/-! ## Runs -/

/-- The invariant of a bridge. -/
structure Sound (b : Bridge μ σ) : Prop where
  tracked : b.upstream.Tracked b.ended
  nodup : b.live.Nodup
  separate : ∀ s ∈ b.live, s ∉ b.ended

/-- What an action does upstream: nothing, or it serves a frame in the group of a live session,
which has ended if its group was destroyed. -/
theorem step_upstream {a : BridgeAction} (h : step own srv b a = some b') :
    b.ended ⊆ b'.ended ∧ (b'.upstream = b.upstream ∨
      ∃ env : Envelope, env.group ∈ b.live ∧ (env.op = OP_DESTROY_GROUP → env.group ∈ b'.ended) ∧
        b'.upstream = b.upstream.serve srv (.ok env)) := by
  cases a with
  | connects =>
    simp only [step] at h
    split at h
    · cases h
    · cases h
      exact ⟨List.Subset.refl _, .inl rfl⟩
  | relays s env =>
    obtain ⟨hlive, -, hended, hup⟩ := relays_upstream h
    rw [hended]
    refine ⟨List.Subset.refl _, hup.imp_right ?_⟩
    rintro ⟨relayed, rfl, hop, hup⟩
    exact ⟨relayed, hlive, fun hdestroy => (hop hdestroy).elim, hup⟩
  | tearsDown s =>
    obtain ⟨hlive, -, hended, requestId, hup⟩ := tearsDown_upstream h
    rw [hended]
    exact ⟨List.subset_cons_self _ _, .inr ⟨_, hlive, fun _ => List.mem_cons_self .., hup⟩⟩

theorem step_drawn (hsrv : srv.PutsOnly) {a : BridgeAction} (h : step own srv b a = some b') :
    b'.upstream.world.ids = b.upstream.world.ids ∧
      b.upstream.world.drawn ≤ b'.upstream.world.drawn := by
  rcases (step_upstream h).2 with hup | ⟨env, -, -, hup⟩ <;> rw [hup]
  · exact ⟨rfl, le_refl _⟩
  · exact History.serves_drawn (Server.serviceSession_serves hsrv _ _)

theorem Sound.step (hsrv : srv.PutsOnly) (hsound : b.Sound) {a : BridgeAction}
    (h : step own srv b a = some b') (hdistinct : b'.upstream.world.Distinct) : b'.Sound := by
  have htracked : b'.upstream.Tracked b'.ended := by
    obtain ⟨hended, hup⟩ := step_upstream h
    rcases hup with hup | ⟨env, -, hdrop, hup⟩ <;> rw [hup] at hdistinct ⊢
    · exact hsound.tracked.mono hended
    · refine (hsound.tracked.mono hended).next (Server.serviceSession_serves hsrv _ _) hdistinct ?_
      rintro _ ⟨⟩
      exact hdrop
  cases a with
  | connects =>
    simp only [Bridge.step] at h
    split at h
    · cases h
    · next hfresh =>
      obtain ⟨hlive, hended⟩ := not_or.1 hfresh
      cases h
      refine ⟨htracked, List.nodup_cons.2 ⟨hlive, hsound.nodup⟩, fun s hs => ?_⟩
      rcases List.mem_cons.1 hs with rfl | hs
      · exact hended
      · exact hsound.separate s hs
  | relays s env =>
    obtain ⟨-, hlive, hended, -⟩ := relays_upstream h
    refine ⟨htracked, ?_, ?_⟩ <;> rw [hlive]
    · exact hsound.nodup
    · rw [hended]
      exact hsound.separate
  | tearsDown s =>
    obtain ⟨-, hlive, hended, -⟩ := tearsDown_upstream h
    refine ⟨htracked, ?_, ?_⟩ <;> rw [hlive]
    · exact hsound.nodup.erase s
    · intro s' hs'
      rw [hended, List.mem_cons]
      rw [hsound.nodup.mem_erase_iff] at hs'
      exact not_or.2 ⟨hs'.1, hsound.separate s' hs'.2⟩

/-- A bridge without sessions, and without objects upstream. -/
structure Fresh (b : Bridge μ σ) : Prop where
  live : b.live = []
  ended : b.ended = []
  objects : b.upstream.world.ctx.objects = ∅
  groups : b.upstream.world.ctx.groups = ∅

theorem Fresh.startsSound (hfresh : b.Fresh) : b.Sound := by
  have hnone (id : Key) : ¬ b.upstream.world.ctx.Has id := by
    unfold Context.Has
    rw [hfresh.objects]
    simp
  refine ⟨⟨.of_no_groups hfresh.groups, fun id hid => (hnone id hid).elim,
    fun g id _ _ hid => (hnone id hid).elim⟩, ?_, ?_⟩ <;> rw [hfresh.live]
  · exact List.nodup_nil
  · exact fun s hs => (List.not_mem_nil hs).elim

/-- The invariant holds in every state whose ids are distinct. -/
theorem Sound.run (hsrv : srv.PutsOnly) {actions : List BridgeAction} (hsound : b.Sound)
    (hrun : Machine.run (Bridge.step own srv) b actions = some b')
    (hdistinct : b'.upstream.world.Distinct) : b'.Sound := by
  refine Machine.run_invariant (I := fun b => b.upstream.world.Distinct → b.Sound)
    (fun b a b' hI hstep hdistinct => ?_) (fun _ => hsound) hrun hdistinct
  obtain ⟨hids, hdrawn⟩ := step_drawn hsrv hstep
  exact (hI (hdistinct.earlier hids hdrawn)).step hsrv hstep hdistinct

/-- Objects of a session that has ended. -/
def Gone (s : Key) (b : Bridge μ σ) : Prop :=
  ∀ id, b.upstream.FiledBy s id → ¬ b.upstream.world.ctx.Has id

/-- No action brings back an object of a session that has ended. -/
theorem Gone.step (hsrv : srv.PutsOnly) (hsound : b.Sound) (hgone : Gone s b) (hs : s ∈ b.ended)
    {a : BridgeAction} (h : Bridge.step own srv b a = some b')
    (hdistinct : b'.upstream.world.Distinct) :
    Gone s b' := by
  rcases (step_upstream h).2 with hup | ⟨env, hlive, -, hup⟩ <;> unfold Gone <;>
    rw [hup] at hdistinct ⊢
  · exact hgone
  · intro id hfiled hid
    have hother : arrivalGroup (.ok env) ≠ s := by
      rintro rfl
      exact hsound.separate _ hlive hs
    obtain ⟨hid, hfiled⟩ := hsound.tracked.belonged
      (Server.serviceSession_serves hsrv _ _) hdistinct
      hother hid hfiled
    exact hgone id hfiled hid

theorem Gone.run (hsrv : srv.PutsOnly) (hgone : Gone s b) (hsound : b.Sound) (hs : s ∈ b.ended)
    {actions : List BridgeAction} (hrun : Machine.run (Bridge.step own srv) b actions = some b')
    (hdistinct : b'.upstream.world.Distinct) : Gone s b' := by
  have hall : b'.Sound ∧ s ∈ b'.ended ∧ Gone s b' := by
    refine Machine.run_invariant
      (I := fun b => b.upstream.world.Distinct → b.Sound ∧ s ∈ b.ended ∧ Gone s b)
      (fun b a b' hI hstep hdistinct => ?_) (fun _ => ⟨hsound, hs, hgone⟩) hrun hdistinct
    obtain ⟨hids, hdrawn⟩ := step_drawn hsrv hstep
    obtain ⟨hsound, hs, hgone⟩ := hI (hdistinct.earlier hids hdrawn)
    exact ⟨hsound.step hsrv hstep hdistinct, (step_upstream hstep).1 hs,
      hgone.step hsrv hsound hs hstep hdistinct⟩
  exact hall.2.2

/-- The end of the session `s` leads from `b` to `b'`. Its objects are gone from then on, and those
of other sessions are there. -/
structure CleanedUp (own : Server ν (History μ σ)) (srv : Server μ σ) (s : Key)
    (b b' : Bridge μ σ) : Prop where
  gone : ∀ later b'', Machine.run (Bridge.step own srv) b' later = some b'' →
    b''.upstream.world.Distinct → Gone s b''
  others : ∀ s' id, s' ≠ s → b.upstream.FiledBy s' id → b.upstream.world.ctx.Has id →
    b'.upstream.world.ctx.Has id

/-- **Main result**: in every run of a bridge, the end of a session removes what its requests have
created and nothing of another session, exactly if it can end. -/
theorem cleanedUp_iff (hsrv : srv.PutsOnly) (hhooks : srv.DestructsOnly) {b₀ : Bridge μ σ}
    (hfresh : b₀.Fresh) {actions : List BridgeAction}
    (hrun : Machine.run (Bridge.step own srv) b₀ actions = some b)
    (hend : step own srv b (.tearsDown s) = some b') (hdistinct : b'.upstream.world.Distinct) :
    CleanedUp own srv s b b' ↔ History.CanEnd srv b.upstream s := by
  have hsound : b.Sound := by
    obtain ⟨hids, hdrawn⟩ := step_drawn hsrv hend
    exact hfresh.startsSound.run hsrv hrun (hdistinct.earlier hids hdrawn)
  have hsound' := hsound.step hsrv hend hdistinct
  obtain ⟨hlive, -, hended, requestId, hup⟩ := tearsDown_upstream hend
  have hgone : Gone s b' ↔ History.CanEnd srv b.upstream s := by
    unfold Gone
    rw [hup] at hdistinct ⊢
    exact hsound.tracked.ending_iff hsrv hhooks (hsound.separate s hlive) hdistinct
  constructor
  · intro hclean
    exact hgone.1 (hclean.gone [] b' rfl hdistinct)
  · intro hcan
    refine ⟨fun later b'' hlater hdistinct' => ?_, fun s' id hne hfiled hid => ?_⟩
    · have hs : s ∈ b'.ended := hended ▸ List.mem_cons_self ..
      exact (hgone.2 hcan).run hsrv hsound' hs hlater hdistinct'
    · rw [hup] at hdistinct ⊢
      exact hsound.tracked.ending_others hsrv hdistinct hne hfiled hid

/-! ## Sessions with an object -/

/-- A bridge whose first session has this id. -/
def firstSession (ids : Nat → Key) : Bridge Unit Unit where
  upstream := .fresh
  ids

def oneInstantiate (s : Key) : List BridgeAction := [.connects, .relays s History.grouped]

/-- `generate_id` may give the id 0, which `put_object` and destroyGroup take for no group: the
object of the session is left. -/
theorem session_zero_left : ∃ b b', Machine.run (Bridge.step Server.bareBridge History.plain)
      (firstSession (generatedIds 0)) (oneInstantiate 0) = some b ∧
    Bridge.step Server.bareBridge History.plain b (.tearsDown 0) = some b' ∧
    b'.upstream.FiledBy 0 1 ∧ b'.upstream.world.ctx.Has 1 ∧
    ¬ CleanedUp Server.bareBridge History.plain 0 b b' := by
  refine ⟨_, _, rfl, rfl, ⟨0, Nat.zero_lt_one, rfl, rfl⟩, rfl, fun h => ?_⟩
  refine h.gone [] _ rfl (fun i hi j hj _ => ?_) 1 ⟨0, Nat.zero_lt_one, rfl, rfl⟩ rfl
  have hi : i < 1 := hi
  have hj : j < 1 := hj
  omega

theorem plain_destructsOnly : History.plain.DestructsOnly :=
  Server.destructsOnly_of_impl fun _ _ _ _ h => h

/-- The object of session 20 is gone with it. -/
theorem session_cleanedUp : ∃ b b', Machine.run (Bridge.step Server.bareBridge History.plain)
      (firstSession fun n => UInt32.ofNat (n + 20)) (oneInstantiate 20) = some b ∧
    CleanedUp Server.bareBridge History.plain 20 b b' := by
  have hrun : Machine.run (Bridge.step Server.bareBridge History.plain)
    (firstSession fun n => UInt32.ofNat (n + 20)) (oneInstantiate 20) = some _ := rfl
  refine ⟨_, _, hrun, (cleanedUp_iff History.plain_putsOnly plain_destructsOnly
    ⟨rfl, rfl, rfl, rfl⟩ hrun rfl fun i hi j hj _ => ?_).2 ?_⟩
  · have hi : i < 1 := hi
    have hj : j < 1 := hj
    omega
  · rw [History.CanEnd, if_neg (by decide)]
    rintro _ ⟨⟩
    refine ⟨fun obj h => ?_, trivial⟩
    cases h
    exact ⟨_, rfl⟩

end Bridge

end Bison
