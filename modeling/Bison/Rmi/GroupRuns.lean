import Bison.Rmi.Groups

/-!
# The group tables over whole runs

A history is a session's world with what the run has shown so far: during which request an id was
generated, and so which group the object filed under it belongs to.

- `History.Recorded`: the invariant, and `Recorded.next`, one frame keeps it.
- `groups_recorded`: **main result**, every id in the group table was filed by a request of that
  group and no other, and its object is there unless a destroy request has named it.
-/

namespace Bison

variable {μ σ : Type}

/-- The group that a request carries. -/
def arrivalGroup : Arrival → Key
  | .ok env => env.group
  | .error _ => 0

/-- A session, and what has happened in it. -/
structure History (μ σ : Type) where
  world : World μ σ
  /-- The group of the request during which an id was generated. -/
  carried : Nat → Key := fun _ => 0
  /-- The objects that destroy requests have named. -/
  destroyed : List Key := []

/-- The ids generated so far are distinct. -/
def World.Distinct (w : World μ σ) : Prop :=
  ∀ i < w.drawn, ∀ j < w.drawn, w.ids i = w.ids j → i = j

theorem World.Distinct.earlier {w w' : World μ σ} (h : w'.Distinct) (hids : w'.ids = w.ids)
    (hdrawn : w.drawn ≤ w'.drawn) : w.Distinct :=
  fun i hi j hj heq => h i (hi.trans_le hdrawn) j (hj.trans_le hdrawn) (by rw [hids]; exact heq)

namespace History

/-- A frame has been served, which has led to the world `w'`. -/
def next (h : History μ σ) (arrival : Arrival) (w' : World μ σ) : History μ σ where
  world := w'
  carried n := if n < h.world.drawn then h.carried n else arrivalGroup arrival
  destroyed :=
    match arrival with
    | .ok env => if env.op = OP_DESTROY then env.objectId :: h.destroyed else h.destroyed
    | .error _ => h.destroyed

def serve (srv : Server μ σ) (h : History μ σ) (arrival : Arrival) : History μ σ :=
  h.next arrival (srv.serviceSession arrival h.world).state

/-- The object with this id was filed by a request that carried group `g`. -/
def FiledBy (h : History μ σ) (g id : Key) : Prop :=
  ∃ n < h.world.drawn, id = h.world.ids n ∧ h.carried n = g

/-- What the group table says of a session. -/
structure Recorded (h : History μ σ) : Prop where
  filed : ∀ g id, h.world.ctx.InGroup g id → g ≠ 0 ∧ h.FiledBy g id
  there : ∀ g id, h.world.ctx.InGroup g id → h.world.ctx.Has id ∨ id ∈ h.destroyed

variable {h : History μ σ} {arrival : Arrival} {w' : World μ σ}

theorem FiledBy.unique {g g' id : Key} (hdistinct : h.world.Distinct) (hg : h.FiledBy g id)
    (hg' : h.FiledBy g' id) : g = g' := by
  obtain ⟨n, hn, heq, rfl⟩ := hg
  obtain ⟨n', hn', heq', rfl⟩ := hg'
  rw [hdistinct n hn n' hn' (heq.symm.trans heq')]

theorem FiledBy.next {g id : Key} (hg : h.FiledBy g id) (hids : w'.ids = h.world.ids)
    (hdrawn : h.world.drawn ≤ w'.drawn) : (h.next arrival w').FiledBy g id := by
  obtain ⟨n, hn, heq, hcarried⟩ := hg
  refine ⟨n, hn.trans_le hdrawn, ?_, ?_⟩
  · rw [heq]
    exact congrFun hids.symm n
  · exact (if_pos hn).trans hcarried

theorem destroyed_subset : h.destroyed ⊆ (h.next arrival w').destroyed := by
  unfold next
  cases arrival with
  | error what => exact List.Subset.refl _
  | ok env =>
    simp only
    split
    · exact List.subset_cons_self _ _
    · exact List.Subset.refl _

theorem Recorded.of_no_groups (hgroups : h.world.ctx.groups = ∅) : h.Recorded := by
  have hnone (g id : Key) : ¬ h.world.ctx.InGroup g id := by
    unfold Context.InGroup
    rw [hgroups]
    exact List.not_mem_nil
  exact ⟨fun g id hin => (hnone g id hin).elim, fun g id hin => (hnone g id hin).elim⟩

/-- The part of a request that works on the tables, started from tables `v` with at most the
groups of the session. -/
theorem Recorded.evolves (hrec : h.Recorded) {v : World μ σ} {erased : List Key}
    (hids : v.ids = h.world.ids) (hdrawn : v.drawn = h.world.drawn)
    (hcurrent : v.ctx.currentGroup = arrivalGroup arrival)
    (hhas : ∀ id, v.ctx.Has id ↔ h.world.ctx.Has id)
    (hgroups : ∀ g id, v.ctx.InGroup g id → h.world.ctx.InGroup g id)
    (hevolves : v.Evolves erased w')
    (herased : ∀ g id, w'.ctx.InGroup g id → id ∈ erased → id ∈ (h.next arrival w').destroyed) :
    (h.next arrival w').Recorded := by
  obtain ⟨hids', hdrawn', new, hnew, hctx⟩ := hevolves
  refine ⟨fun g id hin => ?_, fun g id hin => ?_⟩
  · rcases (hctx.groups g id).1 hin with hin | ⟨rfl, hg, hid⟩
    · obtain ⟨hg, hfiled⟩ := hrec.filed g id (hgroups g id hin)
      exact ⟨hg, hfiled.next (hids'.trans hids) (hdrawn ▸ hdrawn')⟩
    · -- The id was generated while this request was served.
      obtain ⟨n, hn, hn', rfl⟩ := hnew id hid
      refine ⟨hg, n, hn', congrFun hids'.symm n, ?_⟩
      rw [hcurrent]
      exact if_neg (by omega)
  · have hthere : v.ctx.Has id ∨ id ∈ new ∨ id ∈ h.destroyed := by
      rcases (hctx.groups g id).1 hin with hin | ⟨-, -, hid⟩
      · rw [hhas]
        have := hrec.there g id (hgroups g id hin)
        tauto
      · exact .inr (.inl hid)
    rcases or_assoc.2 hthere with hthere | hdestroyed
    · rcases hctx.kept id hthere with hkept | hid
      · exact .inl hkept
      · exact .inr (herased g id hin hid)
    · exact .inr (destroyed_subset hdestroyed)

/-- An id that is recorded in a group that is taken out is recorded nowhere else, and no object
is filed under it again. -/
theorem Recorded.not_inGroup_of_dropped (hrec : h.Recorded) {group : Key} {v : World μ σ}
    {erased new : List Key} (hids : w'.ids = h.world.ids) (hdrawn : h.world.drawn ≤ w'.drawn)
    (hdistinct : w'.Distinct) (hv : v = (h.world.inGroup group).dropGroup group)
    (hnew : ∀ id ∈ new, v.Draws w' id) (hctx : v.ctx.Evolves new erased w'.ctx) {g id : Key}
    (hid : h.world.ctx.InGroup group id) : ¬ w'.ctx.InGroup g id := by
  subst hv
  have hold := hdistinct.earlier hids hdrawn
  intro hin
  rcases (hctx.groups g id).1 hin with hin | ⟨-, -, hmem⟩
  · have hne : g ≠ group := by
      rintro rfl
      simp [Context.InGroup, World.dropGroup] at hin
    have hin : h.world.ctx.InGroup g id := by
      simpa only [Context.InGroup, World.dropGroup, World.inGroup, FinMap.lookup_erase_ne hne]
        using hin
    exact hne ((hrec.filed g id hin).2.unique hold (hrec.filed group id hid).2)
  · obtain ⟨n, hn, hn', heq⟩ := hnew id hmem
    obtain ⟨m, hm, heq', -⟩ := (hrec.filed group id hid).2
    have hm' : m < w'.drawn := hm.trans_le hdrawn
    have hnm := hdistinct n hn' m hm' (by rw [hids]; exact heq.symm.trans heq')
    have hle : h.world.drawn ≤ n := hn
    omega

/-- One frame keeps the invariant. -/
theorem Recorded.next (hrec : h.Recorded) (hserves : World.Serves h.world w' arrival)
    (hdistinct : w'.Distinct) : (h.next arrival w').Recorded := by
  cases hserves with
  | nothing _ hids hdrawn hhas hgroups =>
    refine ⟨fun g id hin => ?_, fun g id hin => ?_⟩
    · obtain ⟨hg, hfiled⟩ := hrec.filed g id ((hgroups g id).1 hin)
      exact ⟨hg, hfiled.next hids hdrawn⟩
    · rcases hrec.there g id ((hgroups g id).1 hin) with hthere | hdestroyed
      · exact .inl ((hhas id).2 hthere)
      · exact .inr (destroyed_subset hdestroyed)
  | request env hevolves =>
    exact hrec.evolves (v := h.world.inGroup env.group) rfl rfl rfl (fun _ => .rfl)
      (fun _ _ h => h) hevolves fun _ _ _ hid => (List.not_mem_nil hid).elim
  | destroy env hop hevolves =>
    refine hrec.evolves (v := h.world.inGroup env.group) rfl rfl rfl (fun _ => .rfl)
      (fun _ _ h => h) hevolves fun g id _ hid => ?_
    rw [List.mem_singleton.1 hid]
    simp [History.next, hop]
  | destroyGroup env hop ids hgroup hids hevolves =>
    have hdropped (g id : Key) (hin : ((h.world.inGroup env.group).dropGroup env.group).ctx.InGroup
        g id) : h.world.ctx.InGroup g id := by
      unfold Context.InGroup World.dropGroup at hin
      by_cases hne : g = env.group
      · simp [hne] at hin
      · rwa [FinMap.lookup_erase_ne hne] at hin
    refine hrec.evolves (v := (h.world.inGroup env.group).dropGroup env.group) rfl rfl rfl
      (fun _ => .rfl) hdropped hevolves fun g id hin hid => ?_
    have hrecorded : h.world.ctx.InGroup env.group id := by
      unfold Context.InGroup
      rw [hids]
      exact hid
    obtain ⟨hids', hdrawn', new, hnew, hctx⟩ := hevolves
    exact (hrec.not_inGroup_of_dropped hids' hdrawn' hdistinct rfl hnew hctx hrecorded hin).elim
  | disconnect env hop hcleared =>
    exact .of_no_groups hcleared.groups

/-! ## Runs -/

variable {srv : Server μ σ}

theorem serves_drawn {w : World μ σ} (hserves : World.Serves w w' arrival) :
    w'.ids = w.ids ∧ w.drawn ≤ w'.drawn := by
  cases hserves with
  | nothing _ hids hdrawn _ _ => exact ⟨hids, hdrawn⟩
  | request env h => exact ⟨h.ids, h.drawn⟩
  | destroy env hop h => exact ⟨h.ids, h.drawn⟩
  | destroyGroup env hop ids hgroup hids h => exact ⟨h.ids, h.drawn⟩
  | disconnect env hop h => exact ⟨h.ids, h.drawn⟩

theorem run_drawn (hsrv : srv.PutsOnly) (arrivals : List Arrival) (h : History μ σ) :
    (arrivals.foldl (serve srv) h).world.ids = h.world.ids ∧
      h.world.drawn ≤ (arrivals.foldl (serve srv) h).world.drawn := by
  induction arrivals generalizing h with
  | nil => exact ⟨rfl, le_refl _⟩
  | cons arrival arrivals ih =>
    obtain ⟨hids, hdrawn⟩ := ih (h.serve srv arrival)
    obtain ⟨hids', hdrawn'⟩ := serves_drawn (Server.serviceSession_serves hsrv arrival h.world)
    exact ⟨hids.trans hids', hdrawn'.trans hdrawn⟩

/-- Every run keeps the invariant, if the ids it generates are distinct. -/
theorem Recorded.run (hsrv : srv.PutsOnly) (arrivals : List Arrival) (hrec : h.Recorded)
    (hdistinct : (arrivals.foldl (serve srv) h).world.Distinct) :
    (arrivals.foldl (serve srv) h).Recorded := by
  induction arrivals generalizing h with
  | nil => exact hrec
  | cons arrival arrivals ih =>
    refine ih ?_ hdistinct
    obtain ⟨hids, hdrawn⟩ := run_drawn hsrv arrivals (h.serve srv arrival)
    exact hrec.next (Server.serviceSession_serves hsrv arrival h.world)
      (hdistinct.earlier hids hdrawn)

/-- **Main result**: in every state of a session that starts without groups, whatever frames
arrive, an id is recorded in one group at most, the group, not 0, that the request carried during
which its object was filed, and the object is there unless a destroy request has named it. -/
theorem groups_recorded (hsrv : srv.PutsOnly) (hgroups : h.world.ctx.groups = ∅)
    (arrivals : List Arrival)
    (hdistinct : (arrivals.foldl (serve srv) h).world.Distinct) :
    ∀ g id, (arrivals.foldl (serve srv) h).world.ctx.InGroup g id →
      (g ≠ 0 ∧ (arrivals.foldl (serve srv) h).FiledBy g id) ∧
        (∀ g', (arrivals.foldl (serve srv) h).world.ctx.InGroup g' id ∨
          (arrivals.foldl (serve srv) h).FiledBy g' id → g' = g) ∧
        ((arrivals.foldl (serve srv) h).world.ctx.Has id ∨
          id ∈ (arrivals.foldl (serve srv) h).destroyed) := by
  have hrec := (Recorded.of_no_groups hgroups).run hsrv arrivals hdistinct
  intro g id hin
  have hfiled := hrec.filed g id hin
  refine ⟨hfiled, fun g' hg' => ?_, hrec.there g id hin⟩
  have hfiled' := hg'.elim (fun hin' => (hrec.filed g' id hin').2) fun h => h
  exact hfiled'.unique hdistinct hfiled.2

/-! ## A stale id -/

/-- A class without fields of its own. -/
def classSeven : Prototype Unit where
  fields := [(CLASS, .key 7), (NAMESPACE, .key 0), (PARENT, .key 0)]
  factorySorted := Prototype.noFactory_sorted
  factoryThrows := Prototype.noFactory_throws

def plain : Server Unit Unit where
  registry := [(0, [(7, classSeven)])]
  impl := fun _ _ s => (.ok [], s)

def fresh : History Unit Unit where
  world := { ctx := {}, app := (), ids := fun n => UInt32.ofNat (n + 1) }

/-- An instantiate of group 3. -/
def grouped : Envelope :=
  { kind := KIND_REQUEST, op := OP_INSTANTIATE, requestId := 7, group := 3
    payload := [(FIELD_KLASS, .key 7)] }

/-- The object that is filed first is destroyed. -/
def destroyFirst : Envelope := { grouped with op := OP_DESTROY, objectId := 1 }

/-- After a single destroy the id stays in its group. -/
theorem stale_id_recorded :
    ¬ ∀ g id, ([.ok grouped, .ok destroyFirst].foldl (serve plain) fresh).world.ctx.InGroup g id →
      ([.ok grouped, .ok destroyFirst].foldl (serve plain) fresh).world.ctx.Has id := by
  intro h
  have hin : ([.ok grouped, .ok destroyFirst].foldl (serve plain) fresh).world.ctx.InGroup 3 1 :=
    List.mem_singleton_self 1
  cases h 3 1 hin

theorem plain_putsOnly : plain.PutsOnly where
  impl _ _ s := .refl s.2
  onCreateObject ns klass w := by
    show World.Evolves [] w (createObject plain.registry ns klass w).2
    rw [createObject_world]
    exact .refl w
  authenticate _ h := by cases h
  onAuthenticated _ w := .refl w

/-- The stale id is recorded in group 3 only, which carried its instantiate. -/
theorem groups_recorded_stale :
    (3 : Key) ≠ 0 ∧ ([.ok grouped, .ok destroyFirst].foldl (serve plain) fresh).FiledBy 3 1 := by
  have hin : ([.ok grouped, .ok destroyFirst].foldl (serve plain) fresh).world.ctx.InGroup 3 1 :=
    List.mem_singleton_self 1
  refine (groups_recorded plain_putsOnly rfl _ ?_ 3 1 hin).1
  intro i hi j hj _
  have hdrawn : ([.ok grouped, .ok destroyFirst].foldl (serve plain) fresh).world.drawn = 1 := rfl
  omega

end History

end Bison
