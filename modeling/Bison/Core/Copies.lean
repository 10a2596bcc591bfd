import Bison.Core.CachedLookup

/-!
# Copies share nothing

A copy and its source are two trees that have no object in common, so nothing that is written to
one is seen in the other, however the writes to both are mixed.

- `Write`, `WriteStep`: a field is written in one of two trees.
- `Invisible`: writes to one tree are not seen in the other.
- `Separate.invisible`: **main result**, trees that share nothing stay so.
- `copies_apart`: **main result**, every copy is a tree of its own, and lookups that copy defaults
  make no two objects share anything.
-/

namespace Bison

namespace Memory

open Program

/-! ## Writes -/

/-- What is done to a tree: a new object is made, a field is written through the reference that
`as` and `operator[]` give, or fields are erased. -/
inductive Write where
  | make (klass : Key)
  | put (p : Ptr) (k : Key) (c : Content)
  | erase (p : Ptr) (pos : Nat)
  | clear (p : Ptr)

def Write.run : Write → MemoryM Unit
  | make klass => do let _ ← construct klass ∅
  | put p k c => do
    let n ← nodeAt p k
    cache p k n
    putContent n c
  | erase p pos => Memory.erase p pos
  | clear p => Memory.clear p

/-- The write is to the tree of `a`, and does not itself put an object of the tree of `b` there. -/
def Write.OnSide (m : Memory) (a b : Ptr) : Write → Prop
  | make _ => True
  | put p _ c => m.Reach a p ∧ ∀ q, c = .object q → q < m.objects ∧ m.Separate q b
  | erase p _ | clear p => m.Reach a p

def WriteStep (a b : Ptr) (m m' : Memory) : Prop :=
  ∃ w : Write, w.OnSide m a b ∧ m' = (w.run m).state

/-- Writes to both trees, and lookups anywhere, in any order. -/
def Interleaved (a b : Ptr) : Memory → Memory → Prop :=
  Relation.ReflTransGen fun m m' => WriteStep a b m m' ∨ WriteStep b a m m' ∨
    ∃ depth p name, p < m.objects ∧ m' = (findField depth p name m).state

/-- After any writes to the trees, what is then written to one is not seen in the other. -/
def Invisible (m : Memory) (a b : Ptr) : Prop :=
  ∀ m₁, Interleaved a b m m₁ → ∀ m₂,
    (Relation.ReflTransGen (WriteStep a b) m₁ m₂ → ∀ depth, m₂.read depth b = m₁.read depth b) ∧
    (Relation.ReflTransGen (WriteStep b a) m₁ m₂ → ∀ depth, m₂.read depth a = m₁.read depth a)

variable {m m' : Memory} {a b p : Ptr} {k : Key}

/-- An object is changed that `b` does not reach. -/
theorem read_elsewhere (hp : ¬ m.Reach b p)
    (hobject : ∀ x, x ≠ p → (m'.object x).fields = (m.object x).fields)
    (hcontent : ∀ x k n, x ≠ p → (m.object x).fields.lookup k = some n →
      m'.content n = m.content n) : ∀ depth, m'.read depth b = m.read depth b := by
  have hne {x : Ptr} (hx : m.Reach b x) : x ≠ p := fun heq => hp (heq ▸ hx)
  intro depth
  exact read_congr (Graph.closed_reach m.Child b) (fun x hx => hobject x (hne hx))
    (fun x k n hx => hcontent x k n (hne hx)) depth .refl

/-- What a write keeps. -/
structure Kept (m : Memory) (a b : Ptr) (m' : Memory) : Prop where
  valid : m'.Valid
  objects : m.objects ≤ m'.objects
  separate : m'.Separate a b
  seen : ∀ depth, m'.read depth b = m.read depth b

/-- A field is written that is there. -/
theorem kept_setContent (hm : m.Valid) (h : m.Separate a b) (hp : m.Reach a p) {n : Node}
    (hk : (m.object p).fields.lookup k = some n) {c : Content}
    (hc : ∀ q, c = .object q → q < m.objects ∧ m.Separate q b) :
    m.Kept a b (m.setContent n c) := by
  have hother {x : Ptr} {l : Key} {n' : Node} (hl : (m.object x).fields.lookup l = some n')
      (hx : x ≠ p) : (m.setContent n c).content n' = m.content n' := by
    refine if_neg ?_
    rintro rfl
    exact hx (hm.owner x p l k n' hl hk).1
  refine ⟨hm.setContent fun q hq => (hc q hq).1, le_rfl, h.link fun x y hxy => ?_,
    read_elsewhere (h p hp) (fun _ _ => rfl) fun x l n' hx hl => hother hl hx⟩
  obtain ⟨l, n', hl, hn'⟩ := hxy
  by_cases heq : n' = n
  · rw [heq, content_setContent, if_pos rfl] at hn'
    have hx := (hm.owner x p l k n (heq ▸ hl) hk).1
    exact .inr ⟨hx ▸ hp, (hc y hn').2⟩
  · rw [content_setContent, if_neg heq] at hn'
    exact .inl ⟨l, n', hl, hn'⟩

/-- A field is added. -/
theorem kept_withField (hm : m.Valid) (h : m.Separate a b) (hp : m.Reach a p) (hp' : p < m.objects)
    {c : Content} (hc : ∀ q, c = .object q → q < m.objects ∧ m.Separate q b) :
    m.Kept a b (m.withField p k c) := by
  refine ⟨hm.withField hp' k fun q hq => (hc q hq).1, le_rfl, h.link fun x y hxy => ?_,
    read_elsewhere (h p hp) (fun x hx => congrArg Dyn.fields (if_neg hx)) fun x l n hx hl => ?_⟩
  · rcases hm.child_withField hxy with hxy | ⟨rfl, hy⟩
    · exact .inl hxy
    · exact .inr ⟨hp, (hc y hy).2⟩
  · rw [content_withField, if_neg (hm.node x l n hl).ne]

/-- An object loses fields. -/
theorem kept_setObject (hm : m.Valid) (h : m.Separate a b) (hp : m.Reach a p) (hp' : p < m.objects)
    {d : Dyn} (hd : ∀ k n, d.fields.lookup k = some n → (m.object p).fields.lookup k = some n) :
    m.Kept a b (m.setObject p d) := by
  refine ⟨hm.setObject hp' hd, le_rfl, h.link fun x y hxy => .inl ?_,
    read_elsewhere (h p hp) (fun x hx => congrArg Dyn.fields (if_neg hx)) fun _ _ _ _ _ => rfl⟩
  obtain ⟨l, n, hl, hn⟩ := hxy
  rw [object_setObject] at hl
  split_ifs at hl with heq
  · exact ⟨l, n, heq ▸ hd l n hl, hn⟩
  · exact ⟨l, n, hl, hn⟩

theorem Kept.trans {m'' : Memory} (h : m.Kept a b m') (h' : m'.Kept a b m'') : m.Kept a b m'' :=
  ⟨h'.valid, h.objects.trans h'.objects, h'.separate, fun depth =>
    (h'.seen depth).trans (h.seen depth)⟩

/-- A field that is there is written, and the cache is told. -/
theorem put_kept (hm : m.Valid) (h : m.Separate a b) (hp : m.Reach a p) (hp' : p < m.objects)
    {n : Node} (hk : (m.object p).fields.lookup k = some n) {c : Content}
    (hc : ∀ q, c = .object q → q < m.objects ∧ m.Separate q b) :
    m.Kept a b ((Write.put p k c).run m).state := by
  set lookup := (m.object p).lookup.insert k (some n)
  have hcached : m.Kept a b (m.withCache p lookup) := kept_setObject hm h hp hp' fun _ _ hk => hk
  have hchild := child_withCache m p lookup
  have hrun : (Write.put p k c).run m = ⟨.ok (), [], (m.withCache p lookup).setContent n c⟩ := by
    show (nodeAt p k >>= fun n => cache p k n >>= fun _ => putContent n c) m = _
    rw [bind_ok (nodeAt_some hk)]
    rfl
  rw [hrun]
  refine hcached.trans (kept_setContent (p := p) (k := k) hcached.valid hcached.separate ?_ ?_ ?_)
  · rw [Reach, hchild]
    exact hp
  · rw [fields_withCache]
    exact hk
  · rw [Separate, hchild]
    exact hc

/-- **A write to one tree**: the trees share nothing afterwards, and the other shows what it did. -/
theorem Write.kept (hm : m.Valid) (ha : a < m.objects) (hb : b < m.objects) (h : m.Separate a b)
    {w : Write} (hside : w.OnSide m a b) : m.Kept a b (w.run m).state := by
  cases w with
  | make klass =>
    have hkept := (extends_withObject m {} fun _ => False).trans
      (extends_withField (m.withObject {}) m.objects CLASS (.plain (.key klass)))
      fun p heq hp => hp.ne heq
    have hvalid := (hm.withObject (d := {}) rfl).withField (Nat.lt_succ_self m.objects) CLASS
      (c := .plain (.key klass)) nofun
    have hstate : ((Write.make klass).run m).state =
        (m.withObject {}).withField m.objects CLASS (.plain (.key klass)) := by
      show ((construct klass ∅ >>= fun _ => pure ()) m).state = _
      rw [bind_ok (construct_run m klass)]
      rfl
    rw [hstate]
    exact ⟨hvalid, hkept.objects, (hkept.grows (p := a) hm hvalid).separate hm ha hb h,
      fun depth => hkept.read hm hm.closed (fun _ hp => hp) (fun _ _ => id) depth hb⟩
  | put p k c =>
    obtain ⟨hp, hc⟩ := hside
    have hp' : p < m.objects := hm.closed.reach ha hp
    cases hk : (m.object p).fields.lookup k with
    | some n => exact put_kept hm h hp hp' hk hc
    | none =>
      -- The field is there, empty, when it is written.
      set m₁ := m.withField p k (.plain .monostate) with hm₁
      have hadded : m.Kept a b m₁ := kept_withField hm h hp hp' nofun
      have hold (x y : Ptr) (hxy : m₁.Child x y) : m.Child x y :=
        (hm.child_withField hxy).resolve_right nofun
      have hnew (x y : Ptr) (hxy : m.Child x y) : m₁.Child x y := by
        obtain ⟨l, n, hl, hn⟩ := hxy
        have hne : ¬ (x = p ∧ l = k) := by
          rintro ⟨rfl, rfl⟩
          cases hk.symm.trans hl
        refine ⟨l, n, ?_, ?_⟩
        · rw [hm₁, lookup_withField, if_neg hne]
          exact hl
        · rw [hm₁, content_withField, if_neg (hm.node x l n hl).ne]
          exact hn
      have hk₁ : (m₁.object p).fields.lookup k = some m.nodes := by
        rw [hm₁, lookup_withField, if_pos ⟨rfl, rfl⟩]
      have hrun : ((Write.put p k c).run m).state = ((Write.put p k c).run m₁).state := by
        show ((nodeAt p k >>= fun n => cache p k n >>= fun _ => putContent n c) m).state =
          ((nodeAt p k >>= fun n => cache p k n >>= fun _ => putContent n c) m₁).state
        rw [bind_ok (nodeAt_none hk), bind_ok (nodeAt_some hk₁)]
      rw [hrun]
      have hreach : m₁.Reach a p := Relation.ReflTransGen.mono hnew _ _ hp
      refine hadded.trans (put_kept hadded.valid hadded.separate hreach hp' hk₁ fun q hq => ?_)
      obtain ⟨hlive, hapart⟩ := hc q hq
      exact ⟨hlive, hapart.link fun x y hxy => .inl (hold x y hxy)⟩
  | erase p pos =>
    refine kept_setObject hm h hside (hm.closed.reach ha hside) fun k n hk => ?_
    rw [FinMap.lookup_erase] at hk
    split_ifs at hk
    exact hk
  | clear p =>
    exact kept_setObject hm h hside (hm.closed.reach ha hside) fun k n hk =>
      FinMap.mem_entries.1 (List.mem_filter.1 (FinMap.mem_entries.2 hk)).1

/-! ## Mixed writes -/

/-- Two objects of a valid heap that share nothing. -/
structure Apart (m : Memory) (a b : Ptr) : Prop where
  valid : m.Valid
  left : a < m.objects
  right : b < m.objects
  separate : m.Separate a b

theorem Apart.symm (h : m.Apart a b) : m.Apart b a := ⟨h.valid, h.right, h.left, h.separate.symm⟩

theorem Apart.write (h : m.Apart a b) (hstep : WriteStep a b m m') :
    m'.Apart a b ∧ ∀ depth, m'.read depth b = m.read depth b := by
  obtain ⟨w, hside, rfl⟩ := hstep
  have hkept := w.kept h.valid h.left h.right h.separate hside
  exact ⟨⟨hkept.valid, h.left.trans_le hkept.objects, h.right.trans_le hkept.objects,
    hkept.separate⟩, hkept.seen⟩

theorem Apart.writes (h : m.Apart a b) (hsteps : Relation.ReflTransGen (WriteStep a b) m m') :
    m'.Apart a b ∧ ∀ depth, m'.read depth b = m.read depth b := by
  induction hsteps with
  | refl => exact ⟨h, fun _ => rfl⟩
  | tail _ hstep ih =>
    have hwrite := ih.1.write hstep
    exact ⟨hwrite.1, fun depth => (hwrite.2 depth).trans (ih.2 depth)⟩

/-- A lookup makes no two objects share anything. -/
theorem Apart.lookup (h : m.Apart a b) (depth : Nat) {p : Ptr} (hp : p < m.objects) (name : Key) :
    (findField depth p name m).state.Apart a b := by
  have hgrows := (findField_grows h.valid hp depth name).state rfl
  exact ⟨hgrows.valid, h.left.trans_le hgrows.objects, h.right.trans_le hgrows.objects,
    hgrows.separate h.valid h.left h.right h.separate⟩

theorem Apart.interleaved (h : m.Apart a b) (hsteps : Interleaved a b m m') : m'.Apart a b := by
  induction hsteps with
  | refl => exact h
  | tail _ hstep ih =>
    rcases hstep with hwrite | hwrite | ⟨depth, p, name, hp, rfl⟩
    · exact (ih.write hwrite).1
    · exact (ih.symm.write hwrite).1.symm
    · exact ih.lookup depth hp name

/-- **Main result**: trees that share nothing stay so, and writes to one are not seen in the
other. -/
theorem Apart.invisible (h : m.Apart a b) : m.Invisible a b := by
  intro m₁ hsteps m₂
  have h₁ := h.interleaved hsteps
  exact ⟨fun hwrites => (h₁.writes hwrites).2, fun hwrites => (h₁.symm.writes hwrites).2⟩

/-! ## Copies -/

/-- The ways to copy an object. -/
inductive Copy where
  | clone
  | clonePtr
  | copyConstruct
  | cloneInto (dst : Ptr)

def Copy.run (depth : Nat) (src : Ptr) : Copy → MemoryM Ptr
  | clone => Memory.clone depth src
  | clonePtr => Memory.clonePtr depth src
  | copyConstruct => Memory.copyConstruct depth src
  | cloneInto dst => do
    Memory.cloneInto depth src dst
    return dst

/-- An object that is copied into has just been made: nothing that matters holds it. -/
def Copy.IntoNew (m : Memory) (src : Ptr) : Copy → Prop
  | clone | clonePtr | copyConstruct => True
  | cloneInto dst => dst < m.objects ∧ ∀ r, r = src ∨ m.IsClass r → ¬ m.Reach r dst

/-- The copy shows what the source shows, the source is as it was, and the copy shares nothing with
the source and the classes, so that writes to one are not seen in the other. -/
structure Isolated (m : Memory) (depth : Nat) (src dst : Ptr) (d : Fields) (m' : Memory) :
    Prop where
  tree : m'.read depth dst = some d
  source : m'.read depth src = some d
  kept : ∀ x, m.Reach src x → m'.object x = m.object x ∧
    ∀ k n, (m.object x).fields.lookup k = some n → m'.content n = m.content n
  apart : ∀ r, r = src ∨ m.IsClass r → m'.Apart dst r ∧ m'.Invisible dst r

/-- What was copied is isolated. -/
theorem Cloned.isolated {depth : Nat} {src dst : Ptr} {d : Fields} (hm : m.Valid)
    (hsrc : src < m.objects) (h : m.Cloned depth src dst m')
    (hnew : ∀ r, r = src ∨ m.IsClass r → ¬ m.Reach r dst) (hd : m.read depth src = some d) :
    m.Isolated depth src dst d m' := by
  have hlive {r : Ptr} (hr : r = src ∨ m.IsClass r) : r < m.objects :=
    hr.elim (fun heq => heq ▸ hsrc) (hm.proto r)
  have hlt {r x : Ptr} (hr : r = src ∨ m.IsClass r) (hx : m.Reach r x) : x < m.objects :=
    hm.closed.reach (hlive hr) hx
  have hne {r x : Ptr} (hr : r = src ∨ m.IsClass r) (hx : m.Reach r x) : x ≠ dst :=
    fun heq => hnew r hr (heq ▸ hx)
  refine ⟨h.tree.trans hd, ?_, fun x hx => ⟨?_, fun k n hk => ?_⟩, fun r hr => ?_⟩
  · rw [← hd]
    exact h.kept.read hm (Graph.closed_reach m.Child src) (fun x => hlt (.inl rfl))
      (fun x => hne (.inl rfl)) depth .refl
  · exact h.kept.object x (hlt (.inl rfl) hx) (hne (.inl rfl) hx)
  · exact h.kept.content n (hm.node x k n hk)
  · have hold : Graph.Closed m'.Child (m.Reach r) := fun x y hx hxy =>
      hx.tail ((h.kept.child hm (hlt hr hx) (hne hr hx)).1 hxy)
    have hapart : m'.Apart dst r := by
      refine ⟨h.valid, h.live, (hlive hr).trans_le h.kept.objects,
        .of_closed h.closed hold ?_ (.inl rfl) .refl⟩
      rintro x (rfl | hx) hr'
      · exact hne hr hr' rfl
      · exact hx.not_gt (hlt hr hr')
    exact ⟨hapart, hapart.invisible⟩

theorem Isolated.mono {depth depth' : Nat} {src dst : Ptr} {d : Fields}
    (h : m.Isolated depth src dst d m') (hle : depth ≤ depth') : m.Isolated depth' src dst d m' :=
  ⟨read_mono hle h.tree, read_mono hle h.source, h.kept, h.apart⟩

/-- The copy is made, if the stack does for the tree. -/
theorem Copy.isolates {depth : Nat} {src : Ptr} {d : Fields} (hm : m.Valid)
    (hsrc : src < m.objects) (hd : m.read depth src = some d) {copy : Copy}
    (hnew : copy.IntoNew m src) :
    ∃ trace dst m', copy.run depth src m = ⟨.ok dst, trace, m'⟩ ∧
      m.Isolated (depth + 1) src dst d m' := by
  have hd' : m.read (depth + 1) src = some d := read_mono (Nat.le_succ depth) hd
  have hfresh {dst : Ptr} (hdst : m.objects ≤ dst) (r : Ptr) (hr : r = src ∨ m.IsClass r) :
      ¬ m.Reach r dst := by
    intro hreach
    have hr' : r < m.objects := hr.elim (fun heq => heq ▸ hsrc) (hm.proto r)
    exact hdst.not_gt (hm.closed.reach hr' hreach)
  -- A copy that is a new object.
  have hcopy {prog : MemoryM Ptr} {room : Nat} (hroom : room ≤ depth + 1)
      (hread : m.read room src = some d) (hprog : Triple (· = m) prog
        (fun dst m' => m.objects ≤ dst ∧ m.Cloned room src dst m')
        fun _ => m.Failed (fun _ => False) room src) :
      ∃ trace dst m', prog m = ⟨.ok dst, trace, m'⟩ ∧ m.Isolated (depth + 1) src dst d m' := by
    have hends := hprog m rfl
    rcases hrun : prog m with ⟨e | dst, trace, m'⟩ <;> rw [hrun] at hends
    · cases hends.tree.symm.trans hread
    · exact ⟨trace, dst, m', rfl,
        (hends.2.isolated hm hsrc (hfresh hends.1) hread).mono hroom⟩
  cases copy with
  | clone => exact hcopy (Nat.le_succ depth) hd (clone_cloned hm hsrc depth)
  | clonePtr => exact hcopy (Nat.le_succ depth) hd (clonePtr_cloned depth m src hm hsrc)
  | copyConstruct => exact hcopy le_rfl hd' (copyConstruct_cloned hm hsrc depth)
  | cloneInto dst =>
    have hends := cloneInto_cloned hm hsrc hnew.1 (hnew.2 src (.inl rfl)) depth m rfl
    rcases hrun : Memory.cloneInto depth src dst m with ⟨e | u, trace, m'⟩ <;> rw [hrun] at hends
    · cases hends.tree.symm.trans hd'
    · refine ⟨trace ++ [], dst, m', ?_, hends.isolated hm hsrc hnew.2 hd'⟩
      show (Memory.cloneInto depth src dst >>= fun _ => pure dst) m = _
      rw [bind_ok hrun]
      rfl

/-! ## Defaults -/

/-- The lookup gives the object a copy of the default in the node `n₀`, and `c` is the object in
it. -/
structure Resolves (m : Memory) (depth : Nat) (p : Ptr) (name : Key) (n₀ : Node) (c : Ptr)
    (m' : Memory) : Prop where
  live : p < m.objects
  uncached : (m.object p).lookup.lookup name = none
  own : (m.object p).fields.lookup name = none
  unfilled : m.Unfilled p name
  default : m.Default p name (some n₀)
  found : ∃ trace n, findField depth p name m = ⟨.ok (some n), trace, m'⟩ ∧
    m'.content n = .object c

/-- The copy is made of new objects, and shows what the default shows. -/
theorem Resolves.copied {depth : Nat} {name : Key} {n₀ : Node} {c : Ptr} (hm : m.Valid)
    (h : m.Resolves depth p name n₀ c m') :
    m.Grows p m' ∧ c < m'.objects ∧ (∀ x, m'.Reach c x → m.objects ≤ x) ∧
      ∃ m₁, m.Looked p m₁ ∧ (m'.read depth c).map .object = m₁.readNode depth n₀ := by
  obtain ⟨trace, n, hfind, hc⟩ := h.found
  have hgrows := (findField_grows hm h.live depth name).state rfl
  rw [hfind] at hgrows
  have hsearch := (searchClasses_answers hm h.live h.own :
    Triple (· = m) (searchClasses depth p name) _ _) m rfl
  rw [findField_run h.uncached h.own] at hfind
  rcases hs : searchClasses depth p name m with ⟨e | u, trace', m₂⟩ <;> rw [hs] at hsearch
  · rw [bind_error hs] at hfind
    cases hfind
  · obtain ⟨found, hfound, hanswered⟩ := hsearch.2 h.unfilled
    cases hfound.unique h.default
    obtain ⟨m₁, n', hlooked, hn', hread, hnew⟩ := hanswered
    rw [bind_ok hs, bind_ok (getObject_run p m₂)] at hfind
    simp only [hn'] at hfind
    have hreadc {m₃ : Memory} {n : Node} (hc : m₃.content n = .object c)
        (hread : m₃.readNode depth n = m₁.readNode depth n₀) :
        (m₃.read depth c).map .object = m₁.readNode depth n₀ := by
      rw [← hread, readNode, hc]
    rcases cacheNew_run p name n' m₂ with hrun | hrun <;> rw [bind_ok hrun] at hfind <;> cases hfind
    · exact ⟨hgrows, (hnew c hc).1, (hnew c hc).2, m₁, hlooked, hreadc hc hread⟩
    · have hchild := child_withCache m₂ p ((m₂.object p).lookup.insert name (some n))
      refine ⟨hgrows, (hnew c hc).1, fun x hx => (hnew c hc).2 x ?_, m₁, hlooked, hreadc hc ?_⟩
      · rw [Reach, ← hchild]
        exact hx
      · exact (readNode_withCache ..).trans hread

/-- What is reached is as it was. -/
theorem Grows.reach {m'' : Memory} {c x : Ptr} (h : m'.Grows p m'') (hm : m'.Valid)
    (hc : c < m'.objects) (hp : ¬ m'.Reach c p) (hx : m''.Reach c x) : m'.Reach c x := by
  obtain ⟨new, -, -, hedge⟩ := h.child
  have hclosed : Graph.Closed m''.Child (m'.Reach c) := fun y z hy hyz =>
    hy.tail ((hedge y z (hm.closed.reach hc hy) hyz).resolve_right fun heq => hp (heq.1 ▸ hy))
  exact hclosed.reach .refl hx

/-- **Main result**: every copy of an acyclic object is a tree of its own that shows what the source
shows, and what two instances have of one default is too; writes to one are not seen in the
other. -/
theorem copies_apart (hm : m.Valid) :
    (∀ src copy, src < m.objects → m.Acyclic src → Copy.IntoNew m src copy →
      ∃ room d, m.read room src = some d ∧ ∀ depth, room ≤ depth → ∃ trace dst m',
        copy.run depth src m = ⟨.ok dst, trace, m'⟩ ∧ m.Isolated (depth + 1) src dst d m') ∧
    ∀ depth name n₀ p₁ p₂ c₁ c₂ m₁ m₂, p₂ < m.objects → m.Resolves depth p₁ name n₀ c₁ m₁ →
      m₁.Resolves depth p₂ name n₀ c₂ m₂ → m₂.Apart c₁ c₂ ∧ m₂.Invisible c₁ c₂ ∧
        (∀ r, r < m.objects → ¬ m.Reach r p₁ → ¬ m.Reach r p₂ →
          m₂.Separate c₁ r ∧ m₂.Separate c₂ r) ∧
        (∃ m₀, m.Looked p₁ m₀ ∧ (m₂.read depth c₁).map .object = m₀.readNode depth n₀) ∧
        ∃ m₀, m₁.Looked p₂ m₀ ∧ (m₂.read depth c₂).map .object = m₀.readNode depth n₀ := by
  refine ⟨fun src copy hsrc hacyclic hnew => ?_,
    fun depth name n₀ p₁ p₂ c₁ c₂ m₁ m₂ hp₂ h₁ h₂ => ?_⟩
  · obtain ⟨room, d, hd⟩ := read_of_acyclic hm hsrc hacyclic
    exact ⟨room, d, hd, fun depth hdepth => copy.isolates hm hsrc (read_mono hdepth hd) hnew⟩
  · obtain ⟨hgrows₁, hc₁, hnew₁, m₀, hlooked₁, hread₁⟩ := h₁.copied hm
    obtain ⟨hgrows₂, hc₂, hnew₂, hdefault₂⟩ := h₂.copied hgrows₁.valid
    -- What the first copy is made of is not looked into again.
    have hother {x : Ptr} (hx : m₁.Reach c₁ x) : x ≠ p₂ ∧ ¬ m₁.IsClass x := by
      refine ⟨fun heq => (hnew₁ x hx).not_gt (heq ▸ hp₂), fun hclass => ?_⟩
      unfold IsClass at hclass
      rw [hgrows₁.classes] at hclass
      exact (hnew₁ x hx).not_gt (hm.proto x hclass)
    have hfirst {x : Ptr} (hx : m₂.Reach c₁ x) : m₁.Reach c₁ x :=
      hgrows₂.reach hgrows₁.valid hc₁ (fun hreach => (hother hreach).1 rfl) hx
    have hapart : m₂.Apart c₁ c₂ :=
      ⟨hgrows₂.valid, hc₁.trans_le hgrows₂.objects, hc₂, fun x hx hx' =>
        (hnew₂ x hx').not_gt (hgrows₁.valid.closed.reach hc₁ (hfirst hx))⟩
    refine ⟨hapart, hapart.invisible, fun r hr hr₁ hr₂ => ?_, ⟨m₀, hlooked₁, ?_⟩, hdefault₂⟩
    · have hold {x : Ptr} (hx : m₂.Reach r x) : x < m.objects := by
        have hr' : ¬ m₁.Reach r p₂ := fun hreach => hr₂ (hgrows₁.reach hm hr hr₁ hreach)
        have hx' := hgrows₂.reach hgrows₁.valid (hr.trans_le hgrows₁.objects) hr' hx
        exact hm.closed.reach hr (hgrows₁.reach hm hr hr₁ hx')
      exact ⟨fun x hx hrx => (hnew₁ x (hfirst hx)).not_gt (hold hrx), fun x hx hrx =>
        (hgrows₁.objects.trans (hnew₂ x hx)).not_gt (hold hrx)⟩
    · rw [← hread₁]
      have hsame {x : Ptr} (hx : m₁.Reach c₁ x) : m₁.Untouched x m₂ :=
        hgrows₂.other x (hgrows₁.valid.closed.reach hc₁ hx) (hother hx).1 (hother hx).2
      exact congrArg (Option.map Value.object) (read_congr (Graph.closed_reach m₁.Child c₁)
        (fun x hx => (hsame hx).1) (fun x k n hx => (hsame hx).2 k n) depth .refl)

/-- A copy of an object that holds another one. -/
theorem copies_apart_nested : ∃ m : Memory, ∃ room d, m.read room 1 = some d ∧
    ∀ depth, room ≤ depth → ∃ trace dst m',
      Copy.run depth 1 .clonePtr m = ⟨.ok dst, trace, m'⟩ ∧ m.Isolated (depth + 1) 1 dst d m' := by
  obtain ⟨m, hrun, hobjects, hleaf, hroot⟩ : ∃ m : Memory, Machine.run (step 1) {}
      [.construct 5 ∅, .construct 7 (FinMap.insert 1 (.object 0) ∅)] = some m ∧ 1 < m.objects ∧
      (∀ q, ¬ m.Child 0 q) ∧ ∀ q, m.Child 1 q → q = 0 := by
    refine ⟨_, rfl, by decide, ?_, ?_⟩
    · rintro q ⟨k, n, hk, hn⟩
      cases List.mem_singleton.1 (FinMap.mem_entries.2 hk)
      cases hn
    · rintro q ⟨k, n, hk, hn⟩
      rcases List.mem_pair.1 (FinMap.mem_entries.2 hk) with heq | heq <;> cases heq <;> cases hn
      rfl
  refine ⟨m, (copies_apart (reached_valid hrun)).1 1 .clonePtr hobjects ?_ trivial⟩
  -- The root leads to the leaf, and the leaf to nothing.
  have hstay {q : Ptr} (h : m.Reach 0 q) : q = 0 := by
    rcases Relation.ReflTransGen.cases_head h with heq | ⟨x, hx, -⟩
    · exact heq.symm
    · exact (hleaf x hx).elim
  intro b hb hcycle
  obtain ⟨x, hx, hxb⟩ := Relation.TransGen.head'_iff.1 hcycle
  rcases Relation.ReflTransGen.cases_head hb with rfl | ⟨y, hy, hyb⟩
  · cases hstay (hroot x hx ▸ hxb)
  · exact hleaf x (hstay (hroot y hy ▸ hyb) ▸ hx)

end Memory

end Bison
