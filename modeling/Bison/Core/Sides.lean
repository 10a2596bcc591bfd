import Bison.Core.OtherLookups

/-!
# Two sides

Callers have some objects, others are stored, and no object is reached from both. A program keeps
it so that makes an object hold only what is new, or on the same side already.

- `Parted L m`: of the objects `L` those of callers share nothing with those that are stored.
- `Parted.change`: a change on one side keeps the two apart.
- `findField_parted`, `clone_parted`, `putContent_parted`, …: the programs do.
-/

namespace Bison

namespace Memory

open Program

/-- Who has an object. -/
inductive Side where
  | caller
  | stored

/-- Of the objects `L` those of callers share nothing with those that are stored. -/
structure Parted (L : Side → Ptr → Prop) (m : Memory) : Prop where
  valid : m.Valid
  settled : ∀ p, (m.object p).Settled
  live : ∀ s p, L s p → p < m.objects
  apart : ∀ p q, L .caller p → L .stored q → m.Separate p q

/-- One more object is on the side. -/
def Also (L : Side → Ptr → Prop) (s : Side) (p : Ptr) : Side → Ptr → Prop :=
  fun t q => L t q ∨ t = s ∧ q = p

/-- The object is reached on the side. -/
def On (m : Memory) (L : Side → Ptr → Prop) (s : Side) (q : Ptr) : Prop := ∃ p, L s p ∧ m.Reach p q

variable {m m' : Memory} {L L' : Side → Ptr → Prop} {s t : Side} {p q x y : Ptr} {k name : Key}
  {n : Node} {depth : Nat}

theorem On.next (h : m.On L s x) (hxy : m.Child x y) : m.On L s y := by
  obtain ⟨p, hp, hreach⟩ := h
  exact ⟨p, hp, hreach.tail hxy⟩

theorem On.root (hp : L s p) : m.On L s p := ⟨p, hp, .refl⟩

theorem Parted.lt (h : m.Parted L) (hx : m.On L s x) : x < m.objects := by
  obtain ⟨p, hp, hreach⟩ := hx
  exact h.valid.closed.reach (h.live s p hp) hreach

/-- An object is on one side only. -/
theorem Parted.side (h : m.Parted L) (hs : m.On L s x) (ht : m.On L t x) : s = t := by
  obtain ⟨p, hp, hpx⟩ := hs
  obtain ⟨q, hq, hqx⟩ := ht
  cases s <;> cases t
  · rfl
  · exact (h.apart p q hp hq x hpx hqx).elim
  · exact (h.apart q p hq hp x hqx hpx).elim
  · rfl

theorem Parted.fit (h : m.Parted L) {M : Ptr → Prop} (hM : ∀ p, M p → p < m.objects) : m.Fit M :=
  ⟨h.settled, hM, nofun, nofun⟩

/-- New objects are made, and objects on the side are made to hold them or others on that side. -/
theorem Parted.change (s : Side) (new : Ptr → Prop) (h : m.Parted L) (hm' : m'.Valid)
    (hsettled : ∀ p, (m'.object p).Settled) (hle : m.objects ≤ m'.objects)
    (hnew : Graph.Closed m'.Child new) (hfresh : ∀ x, new x → m.objects ≤ x)
    (hedge : ∀ x y, x < m.objects → m'.Child x y →
      m.Child x y ∨ m.On L s x ∧ (new y ∨ m.On L s y))
    (hL : ∀ t p, L' t p → L t p ∨ t = s ∧ p < m'.objects ∧ (new p ∨ m.On L s p)) :
    m'.Parted L' := by
  -- What is on a side afterwards was on that side, or is new and on the side `s`.
  have hclosed (t : Side) : Graph.Closed m'.Child fun x => m.On L t x ∨ t = s ∧ new x := by
    rintro x y (hx | ⟨heq, hx⟩) hxy
    · rcases hedge x y (h.lt hx) hxy with hold | ⟨hs, hy⟩
      · exact .inl (hx.next hold)
      · have heq := h.side hx hs
        exact hy.symm.imp (fun hy => heq ▸ hy) fun hy => ⟨heq, hy⟩
    · exact .inr ⟨heq, hnew x y hx hxy⟩
  have hroot (t : Side) (p : Ptr) (hp : L' t p) : m.On L t p ∨ t = s ∧ new p := by
    rcases hL t p hp with hp | ⟨rfl, -, hp⟩
    · exact .inl (.root hp)
    · exact hp.symm.imp_right fun hp => ⟨rfl, hp⟩
  refine ⟨hm', hsettled, fun t p hp => ?_, fun p q hp hq => .of_closed (hclosed .caller)
    (hclosed .stored) ?_ (hroot .caller p hp) (hroot .stored q hq)⟩
  · exact (hL t p hp).elim (fun hp => (h.live t p hp).trans_le hle) fun hp => hp.2.1
  · rintro x (hx | ⟨hs, hx⟩) (hx' | ⟨hs', hx'⟩)
    · cases h.side hx hx'
    · exact (hfresh x hx').not_gt (h.lt hx)
    · exact (hfresh x hx).not_gt (h.lt hx')
    · cases hs.trans hs'.symm

/-- No object holds anything else. -/
theorem Parted.same (h : m.Parted L) (hm' : m'.Valid) (hsettled : ∀ p, (m'.object p).Settled)
    (hle : m.objects ≤ m'.objects) (hchild : ∀ x y, m'.Child x y → m.Child x y) : m'.Parted L :=
  h.change .caller (fun _ => False) hm' hsettled hle nofun nofun
    (fun x y _ hxy => .inl (hchild x y hxy)) fun _ _ hp => .inl hp

theorem Parted.mono (h : m.Parted L) (hL : ∀ t p, L' t p → L t p) : m.Parted L' :=
  ⟨h.valid, h.settled, fun t p hp => h.live t p (hL t p hp),
    fun p q hp hq => h.apart p q (hL _ p hp) (hL _ q hq)⟩

theorem Parted.forget (h : m.Parted (Also L s p)) : m.Parted L := h.mono fun _ _ hp => .inl hp

/-- What is reached on the side is on the side. -/
theorem Parted.also (h : m.Parted L) (hp : m.On L s p) : m.Parted (Also L s p) := by
  refine h.change s (fun _ => False) h.valid h.settled le_rfl nofun nofun
    (fun _ _ _ hxy => .inl hxy) ?_
  rintro t q (hq | ⟨rfl, rfl⟩)
  · exact .inl hq
  · exact .inr ⟨rfl, h.lt hp, .inr hp⟩

/-! ## Lookups -/

theorem Parted.grows (h : m.Parted L) (hp : m.On L s p) (hgrows : m.Grows p m')
    (hsettled : ∀ q, (m'.object q).Settled) : m'.Parted L := by
  obtain ⟨new, hnew, hfresh, hedge⟩ := hgrows.child
  exact h.change s new hgrows.valid hsettled hgrows.objects hnew hfresh
    (fun x y hx hxy => (hedge x y hx hxy).imp_right fun ⟨heq, hy⟩ => ⟨heq ▸ hp, .inl hy⟩)
    fun _ _ hp => .inl hp

theorem findField_parted (hp : L s p) (depth : Nat) (name : Key) :
    Maintains (Parted L) (findField depth p name) := by
  refine .each fun m h => ?_
  have hsound : Maintains (Fit (· = p)) (findField depth p name) := findField_sound depth name rfl
  have hp' : p < m.objects := h.live s p hp
  exact ((findField_grows h.valid hp' depth name).and (hsound.at (h.fit fun _ hq => hq ▸ hp'))).imp
    (fun _ _ hdone => h.grows (.root hp) hdone.1 hdone.2.settled)
    fun _ _ hfail => h.grows (.root hp) hfail.1 hfail.2.settled

/-- `fields_[key]`, and the cache is told. -/
theorem touch_parted (hp : L s p) (k : Key) :
    Triple (Parted L) (nodeAt p k >>= fun n => cache p k (some n) >>= fun _ => pure n)
      (fun n m => m.Parted L ∧ (m.object p).fields.lookup k = some n) fun _ => Parted L := by
  intro m h
  have hp' : p < m.objects := h.live s p hp
  have htouch : Maintains (Fit fun _ => False)
      (nodeAt p k >>= fun n => cache p k (some n) >>= fun _ => pure n) :=
    touch_sound fun n => .pure fun _ h => h.1
  have hsettled := htouch m (h.fit nofun)
  cases hk : (m.object p).fields.lookup k with
  | none =>
    rw [subscript_none hk] at hsettled ⊢
    have hvalid := h.valid.withField hp' k (c := .plain .monostate) nofun
    refine ⟨h.same (hvalid.setObject hp' fun _ _ hk => hk) hsettled.settled le_rfl
      fun x y hxy => ?_, ?_⟩
    · change (Memory.withCache _ p _).Child x y at hxy
      rw [child_withCache] at hxy
      exact (h.valid.child_withField hxy).resolve_right nofun
    · show ((Memory.withCache _ p _).object p).fields.lookup k = _
      rw [fields_withCache, lookup_withField, if_pos ⟨rfl, rfl⟩]
  | some n =>
    have hrun : (nodeAt p k >>= fun n => cache p k (some n) >>= fun _ => pure n : MemoryM Node) m =
        ⟨.ok n, [], m.withCache p ((m.object p).lookup.insert k (some n))⟩ := by
      rw [bind_ok (nodeAt_some hk)]
      rfl
    rw [hrun] at hsettled ⊢
    refine ⟨h.same (h.valid.setObject hp' fun _ _ hk => hk) hsettled.settled le_rfl
      fun x y hxy => ?_, ?_⟩
    · change (Memory.withCache _ p _).Child x y at hxy
      rw [child_withCache] at hxy
      exact hxy
    · show ((Memory.withCache _ p _).object p).fields.lookup k = _
      rw [fields_withCache]
      exact hk

/-- `operator[]` answers a node of the object. -/
theorem subscript_parted (hp : L s p) (depth : Nat) (name : Key) :
    Triple (Parted L) (subscript depth p name)
      (fun n m => m.Parted L ∧ (m.object p).fields.lookup name = some n) fun _ => Parted L := by
  refine .each fun m h => ?_
  have hstep : Triple (· = m) (findField depth p name)
      (fun found m' => m'.Parted L ∧ (m'.object p).fields.lookup name = found)
      fun _ => Parted L :=
    (((findField_parted hp depth name).at h).and (findField_own (h.settled p).coherent depth)).imp
      (fun _ _ h => h) fun _ _ h => h.1
  refine .bind hstep fun found => ?_
  cases found with
  | some n => exact .pure fun _ h => h
  | none => exact (touch_parted hp name).weaken fun _ h => h.1

theorem Parted.looked (h : m.Parted L) (hlooked : m.Looked p m')
    (hsettled : ∀ q, (m'.object q).Settled) : m'.Parted L :=
  h.same hlooked.valid hsettled hlooked.objects.ge fun _ _ hxy => hlooked.child ▸ hxy

theorem asKey_parted (h : m.Parted L) (hp : p < m.objects) (hfills : m.Fills p q k) :
    Triple (· = m) (asKey q k) (fun _ m' => m'.Parted L ∧ m'.classes = m.classes)
      fun _ => Parted L := by
  have hsound : Maintains (Fit fun _ => False) (asKey q k) := asKey_sound q k
  have hlooked := (asKey_looked h.valid hp hfills).at (.refl h.valid p)
  refine (hlooked.and (hsound.at (h.fit nofun))).imp (fun _ m' hdone => ?_) fun _ m' hfail => ?_
  · exact ⟨h.looked hdone.1.1 hdone.2.settled, hdone.1.1.classes⟩
  · exact h.looked hfail.1.1 hfail.2.settled

theorem resolveNamespace_parted (h : m.Parted L) (hp : p < m.objects) :
    Triple (· = m) (resolveNamespace p) (fun _ m' => m'.Parted L ∧ m'.classes = m.classes)
      fun _ => Parted L := by
  have hsound : Triple (Fit (· = p)) (resolveNamespace p)
      (fun _ => Sound (· = p) (fun _ _ => False) fun q k => False ∨ q = p ∧ k = NAMESPACE)
      fun _ => Fit (· = p) := resolveNamespace_sound rfl
  have hlooked := (resolveNamespace_looked hp).at (.refl h.valid p)
  refine (hlooked.and (hsound.at (h.fit fun _ hq => hq ▸ hp))).imp
    (fun _ m' hdone => ?_) fun _ m' hfail => ?_
  · exact ⟨h.looked hdone.1.1 hdone.2.settled, hdone.1.1.classes⟩
  · exact h.looked hfail.1.1 hfail.2.settled

/-! ## New objects -/

/-- A new object holds new objects only. -/
theorem Parted.extended (h : m.Parted L) (hm' : m'.Valid) (hsettled : ∀ q, (m'.object q).Settled)
    (hkept : m.Extends (fun _ => False) m') (hp : m.objects ≤ p) (hp' : p < m'.objects)
    (hclosed : Graph.Closed m'.Child (m.objects ≤ ·)) (s : Side) : m'.Parted (Also L s p) := by
  refine h.change s (m.objects ≤ ·) hm' hsettled hkept.objects hclosed (fun _ hx => hx)
    (fun x y hx hxy => .inl ((hkept.child h.valid hx id).1 hxy)) ?_
  rintro t q (hq | ⟨rfl, rfl⟩)
  · exact .inl hq
  · exact .inr ⟨rfl, hp', .inl hp⟩

/-- A new object that holds no objects. -/
theorem Parted.fresh (h : m.Parted L) (hm' : m'.Valid) (hsettled : ∀ q, (m'.object q).Settled)
    (hobjects : m'.objects = m.objects + 1) (hchild : ∀ x y, m'.Child x y → m.Child x y)
    (s : Side) : m'.Parted (Also L s m.objects) := by
  refine h.change s (· = m.objects) hm' hsettled (hobjects ▸ Nat.le_succ _) ?_
    (fun x hx => hx.ge) (fun x y _ hxy => .inl (hchild x y hxy)) ?_
  · rintro x y rfl hxy
    obtain ⟨k, n, hk, -⟩ := hchild _ y hxy
    exact (lt_irrefl _ (h.valid.lt hk)).elim
  · rintro t q (hq | ⟨rfl, rfl⟩)
    · exact .inl hq
    · exact .inr ⟨rfl, hobjects ▸ Nat.lt_succ_self _, .inl rfl⟩

theorem child_withObject (hxy : (m.withObject {}).Child x y) : m.Child x y := by
  obtain ⟨k, n, hk, hn⟩ := hxy
  change (if x = m.objects then ({} : Dyn) else m.object x).fields.lookup k = some n at hk
  split_ifs at hk
  · cases hk
  · exact ⟨k, n, hk, hn⟩

/-- The memory with a new instance of the class. -/
def withInstance (m : Memory) (klass : Key) : Memory :=
  (m.withObject {}).withField m.objects CLASS (.plain (.key klass))

theorem Valid.withInstance (h : m.Valid) (klass : Key) : (m.withInstance klass).Valid :=
  (h.withObject rfl).withField (Nat.lt_succ_self _) CLASS nofun

theorem child_withInstance (hm : m.Valid) {klass : Key} (hxy : (m.withInstance klass).Child x y) :
    m.Child x y :=
  child_withObject (((hm.withObject rfl).child_withField hxy).resolve_right nofun)

theorem instantiate_run (m : Memory) (ns klass : Key) : instantiate ns klass m =
    ⟨.ok m.objects, [], if ns = 0 then m.withInstance klass else
      (m.withInstance klass).withField m.objects NAMESPACE (.plain (.key ns))⟩ := by
  have hnone : ((m.withInstance klass).object m.objects).fields.lookup NAMESPACE = none := by
    unfold withInstance
    rw [lookup_withField, if_neg fun heq => absurd heq.2 (by decide)]
    show ((m.setObject m.objects {}).object m.objects).fields.lookup NAMESPACE = none
    rw [object_self]
    rfl
  have hassign := assignKey_run
    (m := (m.withInstance klass).withField m.objects NAMESPACE (.plain .monostate))
    (n := (m.withInstance klass).nodes) (k := ns) (if_pos rfl) (.inl rfl)
  rw [withField_setContent] at hassign
  unfold instantiate
  rw [bind_ok (construct_run m klass)]
  split_ifs
  · rfl
  · show (nodeAt m.objects NAMESPACE >>= _) (m.withInstance klass) = _
    rw [bind_ok (nodeAt_none hnone), bind_ok hassign]
    rfl

theorem construct_parted (s : Side) (klass : Key) :
    Triple (Parted L) (construct klass ∅) (fun p => Parted (Also L s p)) fun _ => Parted L := by
  intro m h
  have hsound := construct_sound (L := fun _ => False) (W := fun _ _ => False)
    (B := fun _ _ => False) klass ∅ m (h.fit nofun)
  rw [construct_run] at hsound ⊢
  exact h.fresh (h.valid.withInstance klass) hsound.1.settled rfl
    (fun _ _ => child_withInstance h.valid) s

theorem instantiate_parted (s : Side) (ns klass : Key) :
    Triple (Parted L) (instantiate ns klass) (fun p => Parted (Also L s p)) fun _ => Parted L := by
  intro m h
  have hvalid := h.valid.withInstance klass
  have hsound := instantiate_sound (L := fun _ => False) ns klass m (h.fit nofun)
  rw [instantiate_run] at hsound ⊢
  split_ifs at hsound ⊢
  · exact h.fresh hvalid hsound.settled rfl (fun _ _ => child_withInstance h.valid) s
  · have hvalid' := hvalid.withField (Nat.lt_succ_self _) NAMESPACE (c := .plain (.key ns)) nofun
    refine h.fresh hvalid' hsound.settled rfl
      (fun x y hxy => ?_) s
    have hxy := (hvalid.child_withField hxy).resolve_right fun heq => by cases heq.2
    exact child_withInstance h.valid hxy

/-- A clone can be put on any side. -/
theorem clone_parted (h : m.Parted L) (hp : p < m.objects) (s : Side) (depth : Nat) :
    Triple (· = m) (clone depth p) (fun q => Parted (Also L s q)) fun _ => Parted L := by
  have hsound : Maintains (Fit fun _ => False) (clone depth p) :=
    .bind ((clonePtr_sound depth p).imp (fun _ _ h => h.1.forget) fun _ _ h => h)
      fun q => moveConstruct_destroy_sound q _ fun _ => .pure fun _ h => h
  refine ((clone_cloned h.valid hp depth).and (hsound.at (h.fit nofun))).imp
    (fun q m' hdone => ?_) fun _ m' hfail => ?_
  · obtain ⟨⟨hfresh, hcloned⟩, hsettled⟩ := hdone
    exact h.extended hcloned.valid hsettled.settled
      (hcloned.kept.mono fun x hx heq => (hfresh.trans_lt (heq ▸ hx)).false) hfresh hcloned.live
      (fun x y hx hxy => (hcloned.child x y (.inr hx) hxy).1) s
  · exact h.change s (fun _ => False) hfail.1.valid hfail.2.settled hfail.1.kept.objects nofun nofun
      (fun x y hx hxy => .inl ((hfail.1.kept.child h.valid hx id).1 hxy)) fun _ _ hp => .inl hp

/-! ## Assignments -/

/-- The fields of `src` go to `dst`, and `src` ends. -/
def takeOver (dst src : Ptr) : MemoryM Unit := do
  moveAssign dst src
  destroy src

/-- An object loses fields. -/
theorem modifyObject_parted (hp : L s p) {f : Dyn → Dyn}
    (hf : ∀ d k n, (f d).fields.lookup k = some n → d.fields.lookup k = some n)
    (hsettled : ∀ d, d.Settled → (f d).Settled) : Maintains (Parted L) (modifyObject p f) := by
  refine .modify fun m h => h.same (h.valid.setObject (h.live s p hp) (hf (m.object p)))
    (fun x => ?_) le_rfl ?_
  · rw [object_setObject]
    split_ifs
    · exact hsettled _ (h.settled p)
    · exact h.settled x
  · rintro x y ⟨k, n, hk, hn⟩
    rw [object_setObject] at hk
    split_ifs at hk with heq
    · exact ⟨k, n, heq ▸ hf _ k n hk, hn⟩
    · exact ⟨k, n, hk, hn⟩

theorem destroy_parted (hp : L s p) : Maintains (Parted L) (destroy p) :=
  modifyObject_parted hp (fun _ _ _ hk => nomatch hk) fun _ _ => Dyn.settled_of_empty rfl

theorem erase_parted (hp : L s p) (pos : Nat) : Maintains (Parted L) (erase p pos) := by
  refine modifyObject_parted hp (fun _ _ _ hk => ?_) fun _ h => h.erase _
  rw [FinMap.lookup_erase] at hk
  split_ifs at hk
  exact hk

theorem clear_parted (hp : L s p) : Maintains (Parted L) (clear p) :=
  modifyObject_parted hp (fun _ _ _ hk =>
    FinMap.mem_entries.1 (List.mem_filter.1 (FinMap.mem_entries.2 hk)).1) fun _ _ =>
      Dyn.settled_of_empty rfl

theorem takeOver_parted (hdst : L s p) (hsrc : L s q) : Maintains (Parted L) (takeOver p q) := by
  by_cases hne : p = q
  · unfold takeOver moveAssign
    rw [if_pos hne]
    exact destroy_parted hsrc
  intro m h
  set m' := ((m.setObject q { m.object q with fields := ∅ }).setObject p
    { fields := (m.object q).fields }).setObject q {}
  have hrun : takeOver p q m = ⟨.ok (), [], m'⟩ := by
    unfold takeOver moveAssign
    rw [if_neg hne]
    rfl
  rw [hrun]
  have hp := h.live s p hdst
  have hq := h.live s q hsrc
  have hself : m'.object q = {} := if_pos rfl
  have hmoved : m'.object p = { fields := (m.object q).fields } := (if_neg hne).trans (if_pos rfl)
  have hother (x : Ptr) (hx : x ≠ q) (hx' : x ≠ p) : m'.object x = m.object x :=
    (if_neg hx).trans ((if_neg hx').trans (if_neg hx))
  have hover : m.HandsOver q p m' :=
    ⟨le_rfl, rfl, rfl, rfl, hp, by rw [hmoved], by rw [hself], hother⟩
  refine h.change s (fun _ => False) (h.valid.handsOver hq hover) (fun x => ?_) le_rfl nofun nofun
    (fun x y _ hxy => ?_) fun _ _ hp => .inl hp
  · by_cases hx : x = q
    · rw [hx, hself]
      exact Dyn.settled_of_empty rfl
    by_cases hx' : x = p
    · rw [hx', hmoved]
      exact Dyn.settled_of_empty rfl
    · rw [hother x hx hx']
      exact h.settled x
  · rcases hover.child hxy with ⟨rfl, hy⟩ | ⟨-, -, hy⟩
    · exact .inr ⟨.root hdst, .inr ((On.root hsrc).next hy)⟩
    · exact .inl hy

/-- Anything but an object is written. -/
theorem putContent_plain_parted (n : Node) (v : Value) :
    Maintains (Parted L) (putContent n (.plain v)) := by
  refine .modify fun m h => h.same (h.valid.setContent nofun) h.settled le_rfl ?_
  rintro x y ⟨k, n', hk, hn'⟩
  rw [content_setContent] at hn'
  split_ifs at hn'
  exact ⟨k, n', hk, hn'⟩

theorem assignKey_parted (n : Node) (k : Key) : Maintains (Parted L) (assignKey n k) := by
  refine getContent_bind fun c => getContent_bind fun c' => ?_
  split
  · exact putContent_plain_parted n _
  · exact .throw fun _ h => h

/-- An object is written to a field on the side that it is on. -/
theorem Parted.setContent (h : m.Parted L) (hp : m.On L s p) (hq : m.On L s q)
    (hk : (m.object p).fields.lookup k = some n) : (m.setContent n (.object q)).Parted L := by
  have hlive (x : Ptr) (hx : Content.object q = .object x) : x < m.objects :=
    Content.object.inj hx ▸ h.lt hq
  refine h.change s (fun _ => False) (h.valid.setContent hlive) h.settled le_rfl nofun nofun
    (fun x y _ hxy => ?_) fun _ _ hp => .inl hp
  obtain ⟨l, n', hl, hn'⟩ := hxy
  rw [content_setContent] at hn'
  split_ifs at hn' with heq
  · cases hn'
    have hx := (h.valid.owner x p l k n (heq ▸ hl) hk).1
    exact .inr ⟨hx ▸ hp, .inr hq⟩
  · exact .inl ⟨l, n', hl, hn'⟩

/-- What is read of a field of an object is on the side of the object. -/
theorem Parted.content (h : m.Parted L) (hp : L s p)
    (hk : (m.object p).fields.lookup k = some n) (hn : m.content n = .object q) :
    m.Parted (Also L s q) := h.also ((On.root hp).next ⟨k, n, hk, hn⟩)

/-- What comes after a new object was made. -/
theorem Parted.last (h : m.Parted (Also (Also L s p) t q)) : m.Parted (Also L t q) :=
  h.mono fun _ _ hx => hx.imp_left .inl

/-- A program that is to leave the sides as they were may know one more object. -/
theorem with_also {α : Type} {prog : MemoryM α} {Q : α → Memory → Prop}
    (h : Triple (Parted (Also L s p)) prog Q fun _ => Parted (Also L s p)) :
    Triple (Parted (Also L s p)) prog Q fun _ => Parted L :=
  h.imp (fun _ _ h => h) fun _ _ h => h.forget

end Memory

end Bison
