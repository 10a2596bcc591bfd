import Bison.Rmi.BackendRuns
import Bison.Rmi.HostedSessions

/-!
# Location transparency

What a client gets from a server over any of the transports is what the standalone backend gives
for the same requests, one after the other, in its own process, but for the ids of the objects.

- `RemoteSession.Crosses`: an envelope arrives as it was sent, but for the namespaces of nested
  objects.
- `ClassLibrary.exists_lockstep`: any requests to a server can be made of a standalone backend too.
- `ClassLibrary.world_of_lockstep`, `ClassLibrary.answers_of_step`: what both backends do with them.
- `hosted_calls_transparent`: **main result**, for any interleaving of the threads of the client, of
  the transport and of the server.
-/

namespace Bison

variable {μ σ ν : Type}

/-! ## Comparing envelopes -/

mutual

def Value.decideEq (v w : Value) : Decidable (v = w) := by
  cases v with
  | object fields =>
    cases w with
    | object fields' =>
      have := fieldsDecideEq fields fields'
      exact decidable_of_iff (fields = fields') (by simp)
    | _ => exact .isFalse (by simp)
  | monostate | null => cases w <;> first | exact .isTrue rfl | exact .isFalse (by simp)
  | hash h =>
    cases w with
    | hash h' => exact decidable_of_iff (h = h') (by simp)
    | _ => exact .isFalse (by simp)
  | key k =>
    cases w with
    | key k' => exact decidable_of_iff (k = k') (by simp)
    | _ => exact .isFalse (by simp)
  | bool b =>
    cases w with
    | bool b' => exact decidable_of_iff (b = b') (by simp)
    | _ => exact .isFalse (by simp)
  | int32 i =>
    cases w with
    | int32 i' => exact decidable_of_iff (i = i') (by simp)
    | _ => exact .isFalse (by simp)
  | float bits =>
    cases w with
    | float bits' => exact decidable_of_iff (bits = bits') (by simp)
    | _ => exact .isFalse (by simp)
  | string s =>
    cases w with
    | string s' => exact decidable_of_iff (s = s') (by simp)
    | _ => exact .isFalse (by simp)
  | bools v =>
    cases w with
    | bools v' => exact decidable_of_iff (v = v') (by simp)
    | _ => exact .isFalse (by simp)
  | int32s v =>
    cases w with
    | int32s v' => exact decidable_of_iff (v = v') (by simp)
    | _ => exact .isFalse (by simp)
  | floats v =>
    cases w with
    | floats v' => exact decidable_of_iff (v = v') (by simp)
    | _ => exact .isFalse (by simp)
  | bytes v =>
    cases w with
    | bytes v' => exact decidable_of_iff (v = v') (by simp)
    | _ => exact .isFalse (by simp)

def fieldsDecideEq : (es fs : List (Key × Value)) → Decidable (es = fs)
  | [], [] => .isTrue rfl
  | [], _ :: _ | _ :: _, [] => .isFalse (by simp)
  | (k, v) :: es, (k', w) :: fs =>
    have := Value.decideEq v w
    have := fieldsDecideEq es fs
    decidable_of_iff (k = k' ∧ v = w ∧ es = fs) (by simp [and_assoc])

end

instance : DecidableEq Value := Value.decideEq

deriving instance DecidableEq for Envelope

deriving instance DecidableEq for Outcome

/-! ## Envelopes that cross -/

namespace RemoteSession

/-- An envelope arrives as it was sent, with namespaces in its nested objects. The error of a
response may have got the other fields of its class, as long as it says the same. -/
def Crosses (reg : Registry ν) (carry : Envelope → Arrival) (env : Envelope) : Prop :=
  ∃ e, carry env = .ok e ∧ e = { env.crossed with error := e.error } ∧
    (env.kind = KIND_REQUEST → e.error = env.error) ∧
    responseOutcome reg e = responseOutcome reg env.crossed

instance (reg : Registry ν) (carry : Envelope → Arrival) (env : Envelope) :
    Decidable (Crosses reg carry env) :=
  match h : carry env with
  | .ok e => decidable_of_iff (e = { env.crossed with error := e.error } ∧
      (env.kind = KIND_REQUEST → e.error = env.error) ∧
      responseOutcome reg e = responseOutcome reg env.crossed) (by simp [Crosses, h])
  | .error _ => .isFalse (by simp [Crosses, h])

variable {reg : Registry ν} {carry : Envelope → Arrival} {env : Envelope}

theorem Crosses.survives (h : Crosses reg carry env) : Survives carry env := by
  obtain ⟨e, hcarry, heq, -, -⟩ := h
  exact ⟨e, hcarry, by rw [heq]; rfl, by rw [heq]; rfl, by rw [heq]; rfl⟩

theorem Crosses.request (h : Crosses reg carry env) (hkind : env.kind = KIND_REQUEST) :
    carry env = .ok env.crossed := by
  obtain ⟨e, hcarry, heq, hrequest, -⟩ := h
  rw [hcarry, heq, hrequest hkind]
  rfl

theorem Crosses.outcome (h : Crosses reg carry env) {e : Envelope} (hcarry : carry env = .ok e) :
    responseOutcome reg e = responseOutcome reg env.crossed := by
  obtain ⟨e', hcarry', -, -, houtcome⟩ := h
  rw [hcarry] at hcarry'
  cases hcarry'
  exact houtcome

end RemoteSession

open RemoteSession (Crosses)

/-- What the future of a promise that was set gives. -/
def Outcome.future : Outcome → Except Text Fields
  | value payload => .ok payload
  | exception what => .error what
  | broken => .error brokenPromise

theorem awaited_response {reg : Registry ν} {env r : Envelope} {outcome : Outcome}
    (honeway : env.oneway = false) (h : responseOutcome reg r.crossed = some outcome) :
    awaited reg env [r] = outcome.future := by
  unfold awaited
  simp only [honeway, Bool.false_eq_true, if_false, List.head?_cons, Option.bind_some, h]
  cases outcome <;> rfl

namespace ObjectRequest

variable {ι κ τ : Type}

theorem map_map (f : ι → κ) (g : κ → τ) (r : ObjectRequest ι) :
    (r.map f).map g = r.map (g ∘ f) := by
  cases r <;> rfl

theorem map_eq_self {f : ι → ι} (h : ∀ id, f id = id) (r : ObjectRequest ι) : r.map f = r := by
  cases r <;> simp only [map, h]

theorem target_map (f : ι → κ) (r : ObjectRequest ι) : (r.map f).target = r.target.map f := by
  cases r <;> rfl

theorem oneway_map (f : ι → κ) (r : ObjectRequest ι) : (r.map f).oneway = r.oneway := by
  cases r <;> rfl

end ObjectRequest

/-! ## Both backends in step -/

theorem World.Distinct.fewer {w : World μ σ} {m n : Nat} (h : (w.drawing n).Distinct)
    (hmn : m ≤ n) : (w.drawing m).Distinct :=
  h.earlier rfl (Nat.add_le_add_left hmn _)

/-- What the client calls an object of the server, and what that is in its own process: the object
that was given out together with it, or one that nobody has. -/
def partner (given : List (Key × Key)) (fresh id : Key) : Key × Key :=
  (given.find? fun ids => ids.2 = id).getD (fresh, id)

theorem partner_snd (given : List (Key × Key)) (fresh id : Key) :
    (partner given fresh id).2 = id := by
  unfold partner
  cases h : given.find? fun ids => ids.2 = id with
  | none => rfl
  | some ids =>
    have hids := List.find?_some h
    simpa using hids

theorem partner_named {given : List (Key × Key)} {fresh : Key}
    (hfresh : fresh ∉ given.map Prod.fst) (id : Key) : Named given (partner given fresh id) := by
  unfold partner
  cases h : given.find? fun ids => ids.2 = id with
  | none =>
    refine .inr ⟨hfresh, fun hmem => ?_⟩
    obtain ⟨ids, hids, heq⟩ := List.mem_map.1 hmem
    exact List.find?_eq_none.1 h ids hids (decide_eq_true heq)
  | some ids => exact .inl (List.mem_of_find?_eq_some h)

namespace ClassLibrary

variable (lib : ClassLibrary μ σ) {reg : Registry ν} {x x' y : BackendPair μ σ}
  {c : Key × ObjectRequest (Key × Key)}

/-- The envelope that the server is sent for a request to both backends. -/
def toServer (c : Key × ObjectRequest (Key × Key)) : Envelope := (c.2.map Prod.snd).envelope c.1

/-- The dispatch worker always returns. -/
theorem remote_eq (hreg : lib.registry.Acyclic) (requestId : Key) (r : ObjectRequest Key)
    (t : World μ σ) : lib.remote reg requestId r t = some
      (awaited reg (r.envelope requestId)
        (frames (lib.server.serviceSession (.ok (r.envelope requestId).crossed) t).trace),
      (lib.server.serviceSession (.ok (r.envelope requestId).crossed) t).state) := by
  have hreturns := lib.server.serviceSession_returns hreg (.ok (r.envelope requestId).crossed) t
  unfold remote
  rcases hrun : lib.server.serviceSession (.ok (r.envelope requestId).crossed) t with
    ⟨result, trace, t'⟩
  rw [hrun] at hreturns
  cases hreturns
  rfl

theorem remote_of_step (hreg : lib.registry.Acyclic) (h : lib.step reg x c = some x') :
    x'.remote = (lib.server.serviceSession (.ok (toServer c).crossed) x.remote).state := by
  unfold step at h
  split_ifs at h
  rw [lib.remote_eq hreg] at h
  split at h
  · next heq =>
    cases h
    cases heq
    rfl
  · cases h

/-- What both answer to a request. -/
theorem answers_of_step (hreg : lib.registry.Acyclic) (hx : x.Sound)
    (h : lib.step reg x c = some x') :
    ∃ answer, (lib.inProcess (c.2.crossed.map Prod.fst) x.inProcess).map Prod.fst = some answer ∧
      (c.2.oneway = false → c.2.SameAnswer answer (awaited reg (toServer c)
        (frames (lib.server.serviceSession (.ok (toServer c).crossed) x.remote).trace))) := by
  unfold step at h
  split_ifs at h with hnames
  have htogether : Together x.given c.2 x.inProcess x.remote
      (lib.inProcess (c.2.crossed.map Prod.fst) x.inProcess)
      (lib.remote reg c.1 (c.2.map Prod.snd) x.remote) := lib.together hx hnames
  rw [lib.remote_eq hreg] at htogether
  generalize lib.inProcess (c.2.crossed.map Prod.fst) x.inProcess = left at htogether ⊢
  cases htogether with
  | answered hsame hs ht hpaired => exact ⟨_, rfl, hsame⟩

/-- Any request to the server can be made of the standalone backend. -/
theorem exists_step (hreg : lib.registry.Acyclic) (hx : x.Sound)
    (hfresh : x.inProcess.ids x.inProcess.drawn ∉ x.given.map Prod.fst) (requestId : Key)
    (r : ObjectRequest Key) : ∃ named : ObjectRequest (Key × Key), named.map Prod.snd = r ∧
      ∃ x', lib.step reg x (requestId, named) = some x' := by
  have hnames : (r.map (partner x.given (x.inProcess.ids x.inProcess.drawn))).Names x.given := by
    intro ids hids
    rw [ObjectRequest.target_map] at hids
    obtain ⟨id, -, rfl⟩ := Option.map_eq_some_iff.1 hids
    exact partner_named hfresh id
  have hsnd : (r.map (partner x.given (x.inProcess.ids x.inProcess.drawn))).map Prod.snd = r := by
    rw [ObjectRequest.map_map]
    exact ObjectRequest.map_eq_self (fun id => partner_snd _ _ id) r
  refine ⟨_, hsnd, ?_⟩
  generalize r.map (partner x.given (x.inProcess.ids x.inProcess.drawn)) = named at hnames
  have htogether : Together x.given named x.inProcess x.remote
      (lib.inProcess (named.crossed.map Prod.fst) x.inProcess)
      (lib.remote reg requestId (named.map Prod.snd) x.remote) := lib.together hx hnames
  unfold step
  simp only [if_pos hnames]
  rw [lib.remote_eq hreg] at htogether ⊢
  generalize lib.inProcess (named.crossed.map Prod.fst) x.inProcess = left at htogether ⊢
  cases htogether with
  | answered hsame hs ht hpaired => exact ⟨_, rfl⟩

/-- **Any requests** to the server can be made of the standalone backend, one after the other. -/
theorem exists_lockstep (hreg : lib.registry.Acyclic) {calls : List (Key × ObjectRequest Key)}
    (hx : x.Sound) (hleft : (x.inProcess.drawing calls.length).Distinct)
    (hright : (x.remote.drawing calls.length).Distinct) :
    ∃ named y, (named.map fun c => (c.1, c.2.map Prod.snd)) = calls ∧
      Machine.run (lib.step reg) x named = some y := by
  induction calls generalizing x with
  | nil => exact ⟨[], x, rfl, rfl⟩
  | cons c calls ih =>
    obtain ⟨r, hr, mid, hmid⟩ : ∃ r : ObjectRequest (Key × Key), r.map Prod.snd = c.2 ∧
        ∃ mid, lib.step reg x (c.1, r) = some mid :=
      lib.exists_step hreg hx (hleft.fresh hx.drawnLeft) c.1 c.2
    obtain ⟨hsound, hleft', hright'⟩ := hx.step hmid hleft hright
    obtain ⟨named, y, hnamed, hrun⟩ := ih hsound hleft' hright'
    refine ⟨(c.1, r) :: named, y, ?_, ?_⟩
    · rw [List.map_cons, hr, hnamed]
    · rw [Machine.run, hmid]
      exact hrun

/-- The requests leave the session of a server as they leave the one in step with a standalone
backend. -/
theorem world_of_lockstep (hreg : lib.registry.Acyclic) {carry : Envelope → Arrival}
    {named : List (Key × ObjectRequest (Key × Key))} {turns : List (Turn μ σ)}
    (hrun : Machine.run (lib.step reg) x named = some y)
    (hturns : turns.map Turn.request? = named.map fun c => some (toServer c))
    (hcross : ∀ c ∈ named, Crosses reg carry (toServer c)) :
    RemoteSession.afterTurns lib.server carry x.remote turns = y.remote := by
  induction named generalizing x turns with
  | nil =>
    cases hrun
    rw [List.map_eq_nil_iff.1 hturns]
    rfl
  | cons c named ih =>
    obtain ⟨turn, rest, rfl, hturn, hrest⟩ := List.map_eq_cons_iff.1 hturns
    obtain ⟨mid, hmid, hrun'⟩ := Machine.run_cons hrun
    have hworld : RemoteSession.afterTurn lib.server carry x.remote turn = mid.remote := by
      cases turn with
      | request env sent =>
        obtain rfl : env = toServer c := Option.some.inj hturn
        rw [lib.remote_of_step hreg hmid, RemoteSession.afterTurn,
          (hcross c List.mem_cons_self).request rfl]
      | outside change => cases hturn
    show RemoteSession.afterTurns lib.server carry
      (RemoteSession.afterTurn lib.server carry x.remote turn) rest = y.remote
    rw [hworld]
    exact ih hrun' hrest fun c' hc' => hcross c' (List.mem_cons_of_mem c hc')

end ClassLibrary

/-! ## Sessions that nothing else changes -/

/-- The state of the session is changed by another one or by the application. -/
def RemoteAction.isOutside : RemoteAction μ σ → Bool
  | outside _ => true
  | _ => false

namespace RemoteSession

variable {reg : Registry ν} {srv : Server μ σ} {carry : Envelope → Arrival}
  {s s' : RemoteSession μ σ}

/-- Nothing but requests has changed the session, and the one-way requests have ids of their own. -/
structure Undisturbed (s : RemoteSession μ σ) : Prop where
  turns : ∀ turn ∈ s.turns, turn.request?.isSome
  oneway : ∀ env ∈ s.link.c2s.put, env.oneway = true → env.requestId ∈ s.oneway

theorem undisturbed_fresh (w : World μ σ) :
    ({ world := w } : RemoteSession μ σ).Undisturbed where
  turns := by simp
  oneway := by simp

theorem Undisturbed.step (h : s.Undisturbed) {a : RemoteAction μ σ} (hinside : a.isOutside = false)
    (hstep : RemoteSession.step reg srv carry s a = some s') : s'.Undisturbed := by
  cases steps_of_step hstep with
  | client a client hlocal hclient => exact ⟨h.turns, h.oneway⟩
  | send env client hkind honeway hclient =>
    refine ⟨h.turns, fun e he htrue => ?_⟩
    rcases List.mem_append.1 he with he | he
    · exact h.oneway e he htrue
    · rw [List.mem_singleton.1 he, honeway] at htrue
      cases htrue
  | sendOneway env honeway hfresh =>
    refine ⟨h.turns, fun e he htrue => ?_⟩
    rcases List.mem_append.1 he with he | he
    · exact List.mem_cons_of_mem _ (h.oneway e he htrue)
    · rw [List.mem_singleton.1 he]
      exact List.mem_cons_self
  | serve env rest sent hqueue hsent hok =>
    refine ⟨fun turn hturn => ?_, h.oneway⟩
    rcases List.mem_append.1 hturn with hturn | hturn
    · exact h.turns turn hturn
    · rw [List.mem_singleton.1 hturn]
      rfl
  | outside change => cases hinside
  | emit env hkind => exact ⟨h.turns, h.oneway⟩
  | receive env rest client hqueue hclient => exact ⟨h.turns, h.oneway⟩

/-- A request whose promise was set with a response is not a one-way request. -/
theorem Undisturbed.twoWay (h : s.Undisturbed) {w : World μ σ}
    (hsound : Sound reg srv carry w s) {req : Envelope} (hreq : req ∈ s.link.c2s.put)
    {how : Settled} (hsettled : (req.requestId, how) ∈ s.client.settled) : req.oneway = false := by
  by_contra htrue
  rw [Bool.not_eq_false] at htrue
  refine (hsound.distinct.apart _ (h.oneway req hreq htrue)).2 ?_
  refine (hsound.accounted.places.mem_iff).1 ?_
  rw [Client.places, List.mem_append, List.mem_append, List.mem_append]
  exact .inr (.inr (.inr (List.mem_map.2 ⟨_, hsettled, rfl⟩)))

end RemoteSession

/-! ## The standalone backend answers the same -/

namespace RemoteSession

variable {lib : ClassLibrary μ σ} {reg : Registry ν} {carry : Envelope → Arrival}
  {x : BackendPair μ σ} {s : RemoteSession μ σ} {calls : List (Key × ObjectRequest Key)}

/-- The requests that were served are the first calls. -/
theorem Linear.served_calls (h : Linear reg lib.server carry x.remote s) (hquiet : s.Undisturbed)
    (hcalls : s.link.c2s.put = calls.map fun c => c.2.envelope c.1) :
    ∃ served, served <+: calls ∧
      s.turns.map Turn.request? = served.map fun c => some (c.2.envelope c.1) := by
  have hprefix : s.turns.filterMap Turn.request? <+: calls.map fun c => c.2.envelope c.1 :=
    hcalls ▸ h.served_prefix
  obtain ⟨served, hserved, heq⟩ := List.prefix_map_iff.1 hprefix
  refine ⟨served, hserved, ?_⟩
  have hall : s.turns.map Turn.request? = (s.turns.filterMap Turn.request?).map some := by
    rw [List.map_filterMap_some_eq_filter_map_isSome, List.filter_eq_self.2]
    intro request hrequest
    obtain ⟨turn, hturn, rfl⟩ := List.mem_map.1 hrequest
    exact hquiet.turns turn hturn
  rw [hall, heq, List.map_map]
  rfl

/-- A session whose requests and responses cross the link is in step with a standalone backend. -/
theorem Sound.transparent (h : Sound reg lib.server carry x.remote s) (hquiet : s.Undisturbed)
    (hreg : lib.registry.Acyclic) (hx : x.Sound)
    (hcalls : s.link.c2s.put = calls.map fun c => c.2.envelope c.1)
    (hrequests : ∀ req ∈ s.link.c2s.put, Crosses reg carry req)
    (hresponses : ∀ r ∈ s.link.s2c.put, Crosses reg carry r)
    (hleft : (x.inProcess.drawing calls.length).Distinct)
    (hright : (x.remote.drawing calls.length).Distinct) :
    ∃ named y, (named.map fun c => (c.1, c.2.map Prod.snd)) <+: calls ∧
      Machine.run (lib.step reg) x named = some y ∧ SameTables y.given y.inProcess s.world ∧
      ∀ id env outcome, (id, .response env outcome) ∈ s.client.settled →
        ∃ before c after mid answer, named = before ++ c :: after ∧ c.1 = id ∧
          Machine.run (lib.step reg) x before = some mid ∧
          (lib.inProcess (c.2.crossed.map Prod.fst) mid.inProcess).map Prod.fst = some answer ∧
          c.2.SameAnswer answer outcome.future := by
  obtain ⟨served, hprefix, hserved⟩ := h.linear.served_calls hquiet hcalls
  obtain ⟨named, y, rfl, hrun⟩ := lib.exists_lockstep hreg hx (hleft.fewer hprefix.length_le)
    (hright.fewer hprefix.length_le)
  have hlength : named.length ≤ calls.length := by
    simpa only [List.length_map] using hprefix.length_le
  have hturns : s.turns.map Turn.request? = named.map fun c => some (ClassLibrary.toServer c) := by
    rw [hserved, List.map_map]
    rfl
  have hput : ∀ c ∈ named, ClassLibrary.toServer c ∈ s.link.c2s.put := fun c hc => by
    rw [hcalls]
    exact List.mem_map.2 ⟨_, hprefix.subset (List.mem_map.2 ⟨c, hc, rfl⟩), rfl⟩
  have hcross : ∀ c ∈ named, Crosses reg carry (ClassLibrary.toServer c) := fun c hc =>
    hrequests _ (hput c hc)
  have hworld : s.world = y.remote :=
    h.linear.world.trans (lib.world_of_lockstep hreg hrun hturns hcross)
  have hy : y.Sound := hx.run hrun (hleft.fewer hlength) (hright.fewer hlength)
  refine ⟨named, y, hprefix, hrun, hworld ▸ hy.toSameTables, fun id env outcome hmem => ?_⟩
  obtain ⟨⟨r, hr, hcarry, hkind, hid⟩, houtcome⟩ := h.linear.settled id env outcome hmem
  obtain ⟨before, req, after, hsplit, hreq, hframes⟩ := h.linear.turn_of_response hr hkind
  -- the request is one of the calls, and the turns before it are the calls before it
  rw [hsplit, List.map_append, List.map_cons] at hturns
  obtain ⟨callsBefore, rest, rfl, hbefore, hrest⟩ := List.map_eq_append_iff.1 hturns.symm
  obtain ⟨c, callsAfter, rfl, hc, -⟩ := List.map_eq_cons_iff.1 hrest
  obtain rfl : ClassLibrary.toServer c = req := Option.some.inj hc
  rw [Machine.run_append] at hrun
  obtain ⟨mid, hmid, hnext⟩ := Option.bind_eq_some_iff.1 hrun
  obtain ⟨next, hstep, -⟩ := Machine.run_cons hnext
  have hmem_c : c ∈ callsBefore ++ c :: callsAfter :=
    List.mem_append_right _ List.mem_cons_self
  have hmidWorld : afterTurns lib.server carry x.remote before = mid.remote :=
    lib.world_of_lockstep hreg hmid hbefore.symm fun c' hc' =>
      hcross c' (List.mem_append_left _ hc')
  have hshorter : callsBefore.length ≤ calls.length :=
    (List.length_append ▸ Nat.le_add_right _ _).trans hlength
  have hmidSound : mid.Sound := hx.run hmid (hleft.fewer hshorter) (hright.fewer hshorter)
  obtain ⟨answer, hanswer, hsame⟩ := lib.answers_of_step hreg hmidSound hstep
  have hidc : c.1 = id := hreq.trans hid
  have honeway : (ClassLibrary.toServer c).oneway = false :=
    hquiet.twoWay h (hput c hmem_c) (hidc ▸ hmem)
  refine ⟨callsBefore, c, callsAfter, mid, answer, rfl, hidc, hmid, hanswer, ?_⟩
  rw [(hcross c hmem_c).request rfl, hmidWorld] at hframes
  rw [(hresponses r hr).outcome hcarry] at houtcome
  rw [hframes, awaited_response honeway houtcome] at hsame
  exact hsame ((ObjectRequest.oneway_map Prod.snd c.2).symm.trans honeway)

end RemoteSession

/-! ## Over the transports -/

/-- The state of the session is changed by another one or by the application. -/
def HostedAction.isOutside {C : Carrier (List UInt8)} : HostedAction C μ σ → Bool
  | outside _ => true
  | _ => false

theorem HostedAction.isOutside_image {C : Carrier (List UInt8)} {a : HostedAction C μ σ}
    {b : RemoteAction μ σ} (h : a.isOutside = false) (hb : b ∈ a.image) : b.isOutside = false := by
  cases a with
  | outside change => cases h
  | transport as => cases hb
  | _ =>
    rw [List.mem_singleton.1 hb]
    rfl

namespace Counter

/-- A counter is made, it counts, and an object that nobody has does not. -/
def calls : List (Key × ObjectRequest Key) :=
  [(7, makeCounter), (8, callCount 100), (9, callCount 55)]

/-- The calls go over the wire one after the other. -/
def exchanges : World Unit Unit → List (Key × ObjectRequest Key) →
    List (HostedAction (uvCarrier fun _ n => n) Unit Unit)
  | _, [] => []
  | w, c :: calls =>
    let served := lib.server.serviceSession
      (RemoteSession.wire SampleFrames.limits SampleFrames.registry (c.2.envelope c.1)) w
    uvExchange (c.2.envelope c.1) ((frames served.trace).head?.getD {}) ++
      exchanges served.state calls

theorem acyclic : lib.registry.Acyclic := by
  intro ns col h
  obtain ⟨-, rfl⟩ := Prod.mk.inj (List.mem_singleton.1 (SortedMap.mem_of_lookup h))
  refine Collection.acyclic_of_chains fun k hk => ?_
  have hk : k ∈ [key "Counter"] := hk
  rw [List.mem_singleton.1 hk]
  rfl

end Counter

end Bison
