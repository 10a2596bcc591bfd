import Bison.Rmi.Standalone

/-!
# Two backends, one session

A client asks a standalone backend and a server the same things. Each gives its objects ids of its
own, so the two runs are compared along the pairs of ids given out by the same request.

- `Beside`: programs on one object of either side, with their application around it, do the same
  (`Program.Alike`).
- `Paired`: what holds of the two sessions between two requests.
- `Serves`: a handler of the server answers what the handler of the standalone backend returns.
-/

namespace Bison

open SortedMap

variable {μ σ : Type}

/-! ## On one object -/

/-- The same method runs, on whatever object. -/
inductive SameRun : SessionEffect → SessionEffect → Prop where
  | ran (a b : Option Key) (method : Key) : SameRun (.ran a method) (.ran b method)

/-- Running methods sends nothing. -/
theorem SameRun.frames_eq_nil {trace trace' : List SessionEffect}
    (h : List.Forall₂ SameRun trace trace') : frames trace' = [] := by
  induction h with
  | nil => rfl
  | cons hrun _ ih =>
    cases hrun
    exact ih

/-- An object on either side, with the same application. -/
def Beside (s t : World μ σ) (x y : Instance μ × World μ σ) : Prop :=
  ∃ obj app, x = (obj, { s with app }) ∧ y = (obj, { t with app })

/-- Throw what was caught. -/
def rethrow {τ α : Type} : Except Text α → Program Failure SessionEffect τ α
  | .ok a => pure a
  | .error what => Program.throw (.thrown what)

/-- What follows throws again what was caught. -/
theorem tryCatch_rethrown {τ α β : Type} (p : Program Failure SessionEffect τ α)
    {f : Except Text α → Program Failure SessionEffect τ β}
    (h : ∀ what, f (.error what) = Program.throw (.thrown what)) :
    tryCatch p >>= f = p >>= fun a => f (.ok a) := by
  funext s
  rcases hrun : p s with ⟨(what | _) | a, trace, s'⟩
  · rw [Program.bind_ok (tryCatch_thrown hrun), Program.bind_error hrun, h]
    exact congrArg (Program.Outcome.mk _ · _) (List.append_nil trace)
  · rw [Program.bind_error hrun]
    exact Program.bind_error (Program.attempt_uncaught hrun rfl) _
  · rw [Program.bind_ok (tryCatch_ok hrun), Program.bind_ok hrun]

section Objects

variable {α : Type} {s t : World μ σ}

theorem onFields_alike (lookup : DynamicM α) :
    Program.Alike SameRun (Beside s t) (onFields lookup) (onFields lookup) := by
  refine .ofState ?_
  rintro _ _ ⟨obj, app, rfl, rfl⟩
  simp only
  cases lookup obj.fields with
  | ok r => exact ⟨rfl, _, app, rfl, rfl⟩
  | error e => exact ⟨rfl, _, app, rfl, rfl⟩

theorem findMethodM_alike (reg : Registry μ) (name : Key) :
    Program.Alike SameRun (Beside s t) (findMethodM reg name) (findMethodM reg name) := by
  refine .ofState ?_
  rintro _ _ ⟨obj, app, rfl, rfl⟩
  simp only
  cases findMethod reg name obj.methods obj.fields with
  | ok r => exact ⟨rfl, _, app, rfl, rfl⟩
  | error e => exact ⟨rfl, _, app, rfl, rfl⟩

theorem invoke_alike (body : MethodBody μ σ) (a b : Option Key) (name : Key) (m : μ)
    (params : Fields) :
    Program.Alike SameRun (Beside s t) (invoke body.onWorld a name m params)
      (invoke body.onWorld b name m params) := by
  refine .bind (.emit (.ran a b name)) fun _ => .ofState ?_
  rintro _ _ ⟨obj, app, rfl, rfl⟩
  exact ⟨rfl, _, _, rfl, rfl⟩

/-- A call does the same on both sides where looking up and running methods does. -/
theorem call_alike_of {T : SessionEffect → SessionEffect → Prop}
    {R : Instance μ × World μ σ → Instance μ × World μ σ → Prop} {reg : Registry μ}
    {impl : MethodImpl μ σ} {a b : Option Key}
    (hfind : ∀ name, Program.Alike T R (findMethodM reg name) (findMethodM reg name))
    (hinvoke : ∀ name m params,
      Program.Alike T R (invoke impl a name m params) (invoke impl b name m params))
    (name : Key) (params : Fields) :
    Program.Alike T R (call reg impl a name params) (call reg impl b name params) := by
  refine .bind (hfind name) fun found => ?_
  cases found with
  | some m => exact hinvoke name m params
  | none =>
    refine .bind (hfind CALL_FALLBACK) fun fallback => ?_
    cases fallback with
    | some m => exact hinvoke CALL_FALLBACK m _
    | none => exact .throw _

theorem runHook_alike_of {T : SessionEffect → SessionEffect → Prop}
    {R : Instance μ × World μ σ → Instance μ × World μ σ → Prop} {reg : Registry μ}
    {impl : MethodImpl μ σ} {a b : Option Key}
    (hfind : ∀ name, Program.Alike T R (findMethodM reg name) (findMethodM reg name))
    (hinvoke : ∀ name m params,
      Program.Alike T R (invoke impl a name m params) (invoke impl b name m params))
    (hook : Key) (params : Fields) :
    Program.Alike T R (runHook reg impl a hook params) (runHook reg impl b hook params) := by
  refine .bind (hfind hook) fun found => ?_
  cases found with
  | some m =>
    exact .bind (.attempt (call_alike_of hfind hinvoke hook params)) fun _ => .pure _
  | none => exact .pure none

theorem call_alike (reg : Registry μ) (body : MethodBody μ σ) (a b : Option Key) (name : Key)
    (params : Fields) :
    Program.Alike SameRun (Beside s t) (call reg body.onWorld a name params)
      (call reg body.onWorld b name params) :=
  call_alike_of (findMethodM_alike reg) (invoke_alike body a b) name params

theorem runHook_alike (reg : Registry μ) (body : MethodBody μ σ) (a b : Option Key) (hook : Key)
    (params : Fields) :
    Program.Alike SameRun (Beside s t) (runHook reg body.onWorld a hook params)
      (runHook reg body.onWorld b hook params) :=
  runHook_alike_of (findMethodM_alike reg) (invoke_alike body a b) hook params

variable (lib : ClassLibrary μ σ)

theorem resetObject_alike :
    Program.Alike SameRun (Beside s t) lib.standalone.resetObject lib.server.resetObject := by
  refine .bind (onFields_alike _) fun klass => .bind (onFields_alike _) fun declared =>
    .modify ?_
  rintro _ _ ⟨obj, app, rfl, rfl⟩
  exact ⟨_, app, rfl, rfl⟩

theorem project_alike (keys : List Key) (result : Fields) :
    Program.Alike SameRun (Beside s t) (lib.standalone.project keys result)
      (lib.server.project keys result) := by
  induction keys generalizing result with
  | nil => exact .pure result
  | cons k keys ih =>
    refine .bind (onFields_alike _) fun found => ?_
    cases found with
    | none => exact ih result
    | some v => exact .bind (.lift _) fun r => ih r.2

theorem snapshot_alike (keys : List Key) :
    Program.Alike SameRun (Beside s t) (lib.standalone.snapshot keys)
      (lib.server.readFields keys) := by
  cases keys with
  | nil =>
    rintro _ _ ⟨obj, app, rfl, rfl⟩
    exact ⟨rfl, .nil, obj, app, rfl, rfl⟩
  | cons k keys => exact project_alike lib (k :: keys) Dynamic.empty

theorem getFields_alike (a b : Key) (projection : Fields) :
    Program.Alike SameRun (Beside s t) (lib.standalone.getFields a projection)
      (lib.server.getFields projection b) := by
  refine .bind (snapshot_alike lib _) fun result => ?_
  unfold runHook
  rw [Program.bind_assoc]
  refine .bind (findMethodM_alike _ _) fun found => ?_
  cases found with
  | none => exact .pure result
  | some m =>
    rw [Program.map_eq, Program.bind_assoc]
    refine .bind (.attempt (call_alike _ _ _ _ _ _)) fun ran => ?_
    cases ran <;> exact .pure _

/-- What the server reports, the standalone backend throws. -/
theorem setFields_alike (a b : Key) (payload : Fields) :
    Program.Alike SameRun (Beside s t) (lib.standalone.setFields a payload)
      (lib.server.setFields payload b >>= rethrow) := by
  have hpatched (patch : Fields) : Program.Alike SameRun (Beside s t)
      (Program.forEach (fun entry => onFields (writeField lib.standalone.registry entry.1 entry.2))
        (patch.filter fun entry => isPatchKey entry.1))
      ((lib.server.applyPatch patch >>= fun _ => pure (.ok ())) >>= rethrow) := by
    have hpure : (lib.server.applyPatch patch >>= fun _ => pure (.ok ())) >>= rethrow =
        (lib.server.applyPatch patch : ObjectM μ σ Unit) := by
      rw [Program.bind_assoc]
      exact Program.bind_pure _
    rw [hpure]
    exact .forEach fun _ _ => onFields_alike _
  unfold Standalone.setFields Standalone.effectivePatch Server.setFields runHook
  rw [Program.bind_assoc, Program.bind_assoc, Program.bind_assoc]
  refine .bind (findMethodM_alike _ _) fun found => ?_
  cases found with
  | none => exact hpatched payload
  | some m =>
    rw [Program.map_eq, Program.bind_assoc, tryCatch_rethrown _ fun what => rfl]
    exact .bind (call_alike _ _ _ _ _ _) hpatched

end Objects

/-! ## Between two requests -/

/-- The tables hold the same objects under the ids that were given out together, and no others. -/
structure SameTables (given : List (Key × Key)) (s t : World μ σ) : Prop where
  same : ∀ ids ∈ given, t.ctx.objects.lookup ids.2 = s.ctx.objects.lookup ids.1
  left : ∀ a, (s.ctx.objects.lookup a).isSome → a ∈ given.map Prod.fst
  right : ∀ b, (t.ctx.objects.lookup b).isSome → b ∈ given.map Prod.snd

/-- The client names the same object to both, or one that neither has given out. -/
def Named (given : List (Key × Key)) (ids : Key × Key) : Prop :=
  ids ∈ given ∨ ids.1 ∉ given.map Prod.fst ∧ ids.2 ∉ given.map Prod.snd

/-- What holds of the two sessions between two requests. -/
structure Paired (given : List (Key × Key)) (s t : World μ σ) : Prop extends
    SameTables given s t where
  app : t.app = s.app
  drawnLeft : ∀ a ∈ given.map Prod.fst, ∃ n < s.drawn, a = s.ids n
  drawnRight : ∀ b ∈ given.map Prod.snd, ∃ n < t.drawn, b = t.ids n
  nodupLeft : (given.map Prod.fst).Nodup
  nodupRight : (given.map Prod.snd).Nodup

variable {given : List (Key × Key)} {s t : World μ σ} {a b : Key}

/-- Different ids on one side are different on the other. -/
theorem Paired.fst_eq_iff (h : Paired given s t) {ids ids' : Key × Key} (hids : ids ∈ given)
    (hids' : ids' ∈ given) : ids.1 = ids'.1 ↔ ids.2 = ids'.2 := by
  constructor <;> intro heq
  · rw [List.inj_on_of_nodup_map h.nodupLeft hids hids' heq]
  · rw [List.inj_on_of_nodup_map h.nodupRight hids hids' heq]

/-- Both have the object, or neither. -/
theorem Paired.lookup (h : Paired given s t) (hnamed : Named given (a, b)) :
    t.ctx.objects.lookup b = s.ctx.objects.lookup a := by
  rcases hnamed with hmem | ⟨ha, hb⟩
  · exact h.same _ hmem
  · have hleft : s.ctx.objects.lookup a = none :=
      Option.not_isSome_iff_eq_none.1 fun hsome => ha (h.left a hsome)
    have hright : t.ctx.objects.lookup b = none :=
      Option.not_isSome_iff_eq_none.1 fun hsome => hb (h.right b hsome)
    rw [hleft, hright]

/-- The object under two corresponding ids is replaced, or is gone from both tables. -/
theorem Paired.change (h : Paired given s t) (hmem : (a, b) ∈ given) {s' t' : World μ σ}
    {obj : Option (Instance μ)} (happ : t'.app = s'.app)
    (hs : s'.ids = s.ids ∧ s'.drawn = s.drawn) (ht : t'.ids = t.ids ∧ t'.drawn = t.drawn)
    (hleft : ∀ k, s'.ctx.objects.lookup k = if k = a then obj else s.ctx.objects.lookup k)
    (hright : ∀ k, t'.ctx.objects.lookup k = if k = b then obj else t.ctx.objects.lookup k) :
    Paired given s' t' where
  same ids hids := by
    rw [hleft, hright, h.same ids hids]
    simp only [h.fst_eq_iff hids hmem]
  left k hk := by
    rw [hleft] at hk
    split_ifs at hk with heq
    · rw [heq]
      exact List.mem_map_of_mem hmem
    · exact h.left k hk
  right k hk := by
    rw [hright] at hk
    split_ifs at hk with heq
    · rw [heq]
      exact List.mem_map_of_mem hmem
    · exact h.right k hk
  app := happ
  drawnLeft := by
    rw [hs.1, hs.2]
    exact h.drawnLeft
  drawnRight := by
    rw [ht.1, ht.2]
    exact h.drawnRight
  nodupLeft := h.nodupLeft
  nodupRight := h.nodupRight

/-- The generator of ids stands where it stood. -/
def SameIds (s s' : World μ σ) : Prop := s'.ids = s.ids ∧ s'.drawn = s.drawn

/-- The sessions while a request on an object is served. -/
def Serving (given : List (Key × Key)) (s₀ t₀ s t : World μ σ) : Prop :=
  Paired given s t ∧ SameIds s₀ s ∧ SameIds t₀ t

section Handlers

variable {α : Type} {s₀ t₀ : World μ σ}

/-- What is done to one object is done to both. -/
theorem onObject_alike {p q : ObjectM μ σ α}
    (h : ∀ s t, Program.Alike SameRun (Beside s t) p q) (hmem : (a, b) ∈ given)
    (obj : Instance μ) :
    Program.Alike SameRun (Serving given s₀ t₀) (onObject a obj p) (onObject b obj q) := by
  rintro s t ⟨hpaired, hs, ht⟩
  have hbeside : Beside s t (obj, s) (obj, t) := ⟨obj, s.app, rfl, by rw [← hpaired.app]⟩
  obtain ⟨hresult, htrace, obj', app, hleft, hright⟩ := h s t _ _ hbeside
  unfold onObject
  rcases hrun : p (obj, s) with ⟨result, trace, object, world⟩
  rcases hrun' : q (obj, t) with ⟨result', trace', object', world'⟩
  rw [hrun, hrun'] at hresult htrace
  rw [hrun] at hleft
  rw [hrun'] at hright
  cases hleft
  cases hright
  refine ⟨hresult, htrace, ?_, hs, ht⟩
  refine hpaired.change hmem rfl ⟨rfl, rfl⟩ ⟨rfl, rfl⟩
    (fun k => Context.lookup_storeObject s.ctx a k obj') fun k => ?_
  rw [← hpaired.same _ hmem]
  exact Context.lookup_storeObject t.ctx b k obj'

theorem eraseObject_alike (hmem : (a, b) ∈ given) :
    Program.Alike SameRun (Serving given s₀ t₀) (modifyCtx fun ctx => ctx.eraseObject a)
      (modifyCtx fun ctx => ctx.eraseObject b) := by
  refine .modify ?_
  rintro s t ⟨hpaired, hs, ht⟩
  exact ⟨hpaired.change hmem hpaired.app ⟨rfl, rfl⟩ ⟨rfl, rfl⟩
    (fun k => FinMap.lookup_erase a k s.ctx.objects)
    fun k => FinMap.lookup_erase b k t.ctx.objects, hs, ht⟩

/-! ## Answers -/

/-- The server has answered what the standalone backend has returned or thrown: with a payload that
is related by `S`, or with an error. Nothing is said of a one-way request. -/
inductive Answered (env : Envelope) (S : Fields → Fields → Prop) :
    Except Failure Fields → Except Failure Unit → List Envelope → Prop where
  | success {payload sent}
      (h : env.oneway = false →
        ∃ op payload', S payload payload' ∧ sent = [responseEnvelope env op payload']) :
      Answered env S (.ok payload) (.ok ()) sent
  | refusal {what sent}
      (h : env.oneway = false →
        ∃ op code message, code ≠ 0 ∧ sent = [errorEnvelope env op code message]) :
      Answered env S (.error (.thrown what)) (.ok ()) sent
  | hangs {sent} : Answered env S (.error .hangs) (.error .hangs) sent

/-- A handler has answered, or has thrown before it sent anything. -/
inductive Handled (env : Envelope) (S : Fields → Fields → Prop) :
    Except Failure Fields → Except Failure Unit → List Envelope → Prop where
  | answered {r r' sent} (h : Answered env S r r' sent) : Handled env S r r' sent
  | thrown {what what'} : Handled env S (.error (.thrown what)) (.error (.thrown what')) []

/-- A handler that throws has sent nothing, and the standalone backend has thrown as well. -/
theorem Handled.of_thrown {env : Envelope} {S : Fields → Fields → Prop} {r : Except Failure Fields}
    {what : Text} {sent : List Envelope} (h : Handled env S r (.error (.thrown what)) sent) :
    (∃ what', r = .error (.thrown what')) ∧ sent = [] := by
  cases h with
  | answered h => cases h
  | thrown => exact ⟨⟨_, rfl⟩, rfl⟩

/-- The handler of the server answers what the handler of the standalone backend returns. -/
def Serves (env : Envelope) (R : World μ σ → World μ σ → Prop) (p : ServerM μ σ Fields)
    (q : ServerM μ σ Unit) : Prop :=
  ∀ s t, R s t → Handled env Eq (p s).result (q t).result (frames (q t).trace) ∧
    R (p s).state (q t).state

variable {env : Envelope} {R : World μ σ → World μ σ → Prop}

theorem Serves.bind {p q : ServerM μ σ α} {f : α → ServerM μ σ Fields} {g : α → ServerM μ σ Unit}
    (hp : Program.Alike SameRun R p q) (hf : ∀ r, Serves env R (f r) (g r)) :
    Serves env R (p >>= f) (q >>= g) := by
  intro s t hst
  obtain ⟨hresult, htrace, hstate⟩ := hp s t hst
  rcases hrun : p s with ⟨result, trace, s'⟩
  rcases hrun' : q t with ⟨result', trace', t'⟩
  rw [hrun, hrun'] at hresult htrace hstate
  cases hresult
  have hsilent := SameRun.frames_eq_nil htrace
  cases result with
  | error e =>
    rw [Program.bind_error hrun, Program.bind_error hrun']
    refine ⟨?_, hstate⟩
    cases e with
    | thrown what =>
      simp only [hsilent]
      exact .thrown
    | hangs => exact .answered .hangs
  | ok r =>
    rw [Program.bind_ok hrun, Program.bind_ok hrun']
    simp only [frames_append, hsilent, List.nil_append]
    exact hf r s' t' hstate

theorem Serves.reply (op : Key) (payload : Fields) :
    Serves env R (pure payload) (sendResponse env op payload) :=
  fun _ _ h => ⟨.answered (.success fun _ => ⟨op, payload, rfl, rfl⟩), h⟩

/-- It does not change the session, and answers with an error. -/
def Refuses (env : Envelope) (q : ServerM μ σ Unit) : Prop :=
  ∀ t, (q t).result = .ok () ∧ (q t).state = t ∧
    (env.oneway = false → ∃ op code message, code ≠ 0 ∧
      frames (q t).trace = [errorEnvelope env op code message])

theorem sendError_refuses (env : Envelope) (op : Key) {code : Key} (hcode : code ≠ 0)
    (message : Text) : Refuses env (sendError env op code message : ServerM μ σ Unit) :=
  fun _ => ⟨rfl, rfl, fun _ => ⟨op, code, message, hcode, rfl⟩⟩

/-- What the server catches and reports, the standalone backend throws. -/
theorem Serves.report {p : ServerM μ σ α} {q : ServerM μ σ (Except Text α)}
    {f : α → ServerM μ σ Fields} {g : Except Text α → ServerM μ σ Unit}
    (hp : Program.Alike SameRun R p (q >>= rethrow)) (hok : ∀ r, Serves env R (f r) (g (.ok r)))
    (herror : ∀ what, Refuses env (g (.error what))) : Serves env R (p >>= f) (q >>= g) := by
  intro s t hst
  obtain ⟨hresult, htrace, hstate⟩ := hp s t hst
  rcases hrun : p s with ⟨result, trace, s'⟩
  rcases hrun' : q t with ⟨e | what | r, trace', t'⟩
  · rw [Program.bind_error hrun', hrun] at hresult htrace hstate
    cases hresult
    have hsilent := SameRun.frames_eq_nil htrace
    rw [Program.bind_error hrun, Program.bind_error hrun']
    refine ⟨?_, hstate⟩
    cases e with
    | thrown what =>
      simp only [hsilent]
      exact .thrown
    | hangs => exact .answered .hangs
  · rw [Program.bind_ok hrun', hrun] at hresult htrace hstate
    cases hresult
    have hsilent : frames trace' = [] := by
      have hall := SameRun.frames_eq_nil htrace
      simp only [frames_append] at hall
      exact (List.append_eq_nil_iff.1 hall).1
    obtain ⟨hok', hstate', hsent⟩ := herror what t'
    rw [Program.bind_error hrun, Program.bind_ok hrun']
    simp only [hok', hstate', frames_append, hsilent, List.nil_append]
    exact ⟨.answered (.refusal hsent), hstate⟩
  · rw [Program.bind_ok hrun', hrun] at hresult htrace hstate
    cases hresult
    have hsilent : frames trace' = [] := by
      have hall := SameRun.frames_eq_nil htrace
      simp only [frames_append] at hall
      exact (List.append_eq_nil_iff.1 hall).1
    rw [Program.bind_ok hrun, Program.bind_ok hrun']
    simp only [frames_append, hsilent, List.nil_append]
    exact hok r s' t' hstate

/-! ## Requests on an object -/

theorem onObject_rethrow (id : Key) (obj : Instance μ) (q : ObjectM μ σ (Except Text α)) :
    onObject id obj (q >>= rethrow) = onObject id obj q >>= rethrow := by
  funext w
  simp only [onObject, Program.bind_run]
  rcases q (obj, w) with ⟨e | what | r, trace, obj', w'⟩ <;> rfl

theorem tryCatch_rethrow {τ : Type} (p : Program Failure SessionEffect τ α) :
    tryCatch p >>= rethrow = p := by
  rw [tryCatch_rethrown p fun what => rfl]
  exact Program.bind_pure p

theorem serves_object {op : Key} {p : Instance μ → ServerM μ σ Fields}
    {q : Instance μ → ServerM μ σ Unit} (hnamed : Named given (a, b)) (hid : env.objectId = b)
    (h : ∀ obj, (a, b) ∈ given → Serves env (Serving given s₀ t₀) (p obj) (q obj)) :
    Serves env (Serving given s₀ t₀) (withStored a p) (withObject env op q) := by
  intro s t hst
  have hsame := hst.1.lookup hnamed
  subst hid
  cases hobj : s.ctx.objects.lookup a with
  | none =>
    rw [hobj] at hsame
    rw [withStored_missing hobj, withObject_missing hsame]
    exact ⟨.answered (.refusal fun _ => ⟨op, _, _, by decide, rfl⟩), hst⟩
  | some obj =>
    rw [hobj] at hsame
    rw [withStored_found hobj, withObject_found hsame]
    -- An object in the table has been given out.
    have hgiven : a ∈ given.map Prod.fst := hst.1.left a (by rw [hobj]; rfl)
    exact h obj (hnamed.resolve_right fun hnone => hnone.1 hgiven) s t hst

variable (lib : ClassLibrary μ σ)

theorem handleClear_serves (hnamed : Named given (a, b)) (hid : env.objectId = b) :
    Serves env (Serving given s₀ t₀) (lib.standalone.handleClear a)
      (lib.server.handleClear env) := by
  refine serves_object hnamed hid fun obj hmem => ?_
  subst hid
  refine .bind (onObject_alike (fun s t => ?_) hmem obj) fun _ => .reply _ _
  exact .bind (resetObject_alike lib) fun _ => .bind (runHook_alike _ _ _ _ _ _) fun _ => .pure _

theorem handleSet_serves (hnamed : Named given (a, b)) (hid : env.objectId = b) :
    Serves env (Serving given s₀ t₀) (lib.standalone.handleSet a env.payload)
      (lib.server.handleSet env) := by
  refine serves_object hnamed hid fun obj hmem => ?_
  subst hid
  refine .report ?_ (fun _ => .reply _ _) fun what => sendError_refuses env _ (by decide) _
  rw [← onObject_rethrow]
  exact onObject_alike (fun s t => setFields_alike lib a _ _) hmem obj

theorem handleGet_serves (hnamed : Named given (a, b)) (hid : env.objectId = b) :
    Serves env (Serving given s₀ t₀) (lib.standalone.handleGet a env.payload)
      (lib.server.handleGet env) := by
  refine serves_object hnamed hid fun obj hmem => ?_
  subst hid
  rw [← Program.bind_pure (onObject a obj _)]
  exact .bind (onObject_alike (fun s t => getFields_alike lib a _ _) hmem obj) fun _ => .reply _ _

theorem handleCall_serves (hnamed : Named given (a, b)) (hid : env.objectId = b) :
    Serves env (Serving given s₀ t₀) (lib.standalone.handleCall a env.payload env.oneway)
      (lib.server.handleCall env) := by
  refine serves_object hnamed hid fun obj hmem => ?_
  subst hid
  refine .bind (.lift _) fun ((name, args), _) => .report ?_ (fun res => ?_) fun what => ?_
  · rw [tryCatch_rethrow]
    exact onObject_alike (fun s t => call_alike _ _ _ _ _ _) hmem obj
  · cases honeway : env.oneway with
    | false => exact .reply _ _
    | true => exact fun s t hst => ⟨.answered (.success fun hsent => by simp_all), hst⟩
  · cases honeway : env.oneway with
    | false => exact sendError_refuses env _ (by decide) _
    | true => exact fun t => ⟨rfl, rfl, fun hsent => by simp_all⟩

theorem handleDestroy_serves (hnamed : Named given (a, b)) (hid : env.objectId = b) :
    Serves env (Serving given s₀ t₀) (lib.standalone.handleDestroy a)
      (lib.server.handleDestroy env) := by
  refine serves_object hnamed hid fun obj hmem => ?_
  subst hid
  refine .bind (onObject_alike (fun s t => ?_) hmem obj) fun _ =>
    .bind (eraseObject_alike hmem) fun _ => .reply _ _
  exact .bind (runHook_alike _ _ _ _ _ _) fun _ => .pure _

end Handlers

end Bison
