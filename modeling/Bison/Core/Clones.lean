import Bison.Core.Heap

/-!
# Clones

`clone_into` first copies the fields, so that the copy holds the objects of the source, and then
puts a clone of each in its place. All the while the copy shows what the source shows.

- `Cloned`: the copy is a tree of its own, and nothing else has changed.
- `clonePtr_cloned`, `cloneInto_cloned`, `copyConstruct_cloned`, `clone_cloned`: each of the copies.
-/

namespace Bison

namespace Memory

open Program

/-- `dst` is a copy of `src` with objects of its own, and everything else is as it was. -/
structure Cloned (m : Memory) (depth : Nat) (src dst : Ptr) (m' : Memory) : Prop where
  valid : m'.Valid
  kept : m.Extends (· = dst) m'
  live : dst < m'.objects
  child : ∀ p q, p = dst ∨ m.objects ≤ p → m'.Child p q → m.objects ≤ q ∧ q ≠ dst
  tree : m'.read depth dst = m.read depth src

/-- The stack does not do for the tree, and everything but the objects `X` is as it was. -/
structure Failed (m : Memory) (X : Ptr → Prop) (depth : Nat) (src : Ptr) (m' : Memory) : Prop where
  valid : m'.Valid
  kept : m.Extends X m'
  tree : m.read depth src = none

variable {m : Memory} {S : Ptr → Prop} {depth : Nat} {src dst : Ptr}

theorem Cloned.closed {m' : Memory} (h : m.Cloned depth src dst m') :
    Graph.Closed m'.Child fun p => p = dst ∨ m.objects ≤ p :=
  fun p q hp hchild => .inr (h.child p q hp hchild).1

/-! ## The fields -/

/-- The fields but `rest` have been copied. -/
structure Filling (m : Memory) (src dst : Ptr) (rest : List (Key × Node)) (m' : Memory) : Prop where
  valid : m'.Valid
  kept : m.Extends (· = dst) m'
  objects : m'.objects = m.objects
  own : ∀ k n, (m'.object dst).fields.lookup k = some n → m.nodes ≤ n
  bound : ∀ kv ∈ rest, (m.object src).fields.lookup kv.1 = some kv.2
  copied : ∀ k, k ∉ rest.map Prod.fst → ((m'.object dst).fields.lookup k).map m'.content =
    ((m.object src).fields.lookup k).map m.content

/-- One field is copied. -/
theorem Filling.next (hm : m.Valid) (hdst : dst < m.objects) {kv : Key × Node}
    {rest : List (Key × Node)} {m' : Memory} (h : m.Filling src dst (kv :: rest) m') :
    m.Filling src dst rest (m'.withField dst kv.1 (m'.content kv.2)) := by
  have hdst' : dst < m'.objects := h.objects ▸ hdst
  obtain ⟨hkv, hrest⟩ := List.forall_mem_cons.1 h.bound
  have hcontent : m'.content kv.2 = m.content kv.2 := h.kept.content _ (hm.node _ _ _ hkv)
  refine ⟨h.valid.withField hdst' _ fun q hq => ?_, ?_, h.objects, fun k n hk => ?_, hrest,
    fun k hk => ?_⟩
  · rw [h.objects]
    exact hm.child src q ⟨_, _, hkv, hcontent ▸ hq⟩
  · exact h.kept.trans (extends_withField ..) fun _ hp _ => hp
  · rw [lookup_withField] at hk
    split_ifs at hk
    · exact Option.some.inj hk ▸ h.kept.nodes
    · exact h.own k n hk
  · rw [lookup_withField]
    split_ifs with heq
    · rw [heq.2, hkv]
      show some ((m'.withField dst kv.1 (m'.content kv.2)).content m'.nodes) = _
      rw [content_withField, if_pos rfl, hcontent]
      rfl
    · rw [← h.copied k fun hmem => ?_]
      · cases hold : (m'.object dst).fields.lookup k with
        | none => rfl
        | some n =>
          have hne : n ≠ m'.nodes := (h.valid.node _ _ _ hold).ne
          exact congrArg some (by rw [content_withField, if_neg hne])
      · rw [List.map_cons, List.mem_cons] at hmem
        exact hmem.elim (fun hkey => heq ⟨rfl, hkey⟩) hk

/-- All the fields are copied. -/
theorem copyFields_filling (hm : m.Valid) (hdst : dst < m.objects) :
    Triple (· = m) (copyFields src dst) (fun _ => m.Filling src dst []) fun _ _ => False := by
  refine getObject_bind fun d => .mono (P := fun m' => m' = m ∧ m.object src = d)
    (.given fun hd => ?_) (fun m' h => ⟨h.1, h.1 ▸ h.2⟩) (fun _ _ h => h) fun _ _ h => h
  subst hd
  refine .bind (Q := fun _ => m.Filling src dst (m.object src).fields.entries)
    (.modify fun m' hm' => ?_) fun _ => ?_
  · subst hm'
    refine ⟨hm.setObject hdst (fun k n hk => nomatch hk), ⟨le_rfl, le_rfl, fun p _ hp => ?_,
      fun _ _ => rfl, rfl⟩, rfl, fun k n hk => ?_, fun kv hkv => FinMap.mem_entries.1 hkv,
      fun k hk => ?_⟩
    · exact if_neg hp
    · rw [object_self] at hk
      cases hk
    · have hnone : (m'.object src).fields.lookup k = none := by
        cases hn : (m'.object src).fields.lookup k with
        | none => rfl
        | some n => exact (hk (List.mem_map_of_mem (FinMap.mem_entries.2 hn))).elim
      rw [hnone, object_self]
      rfl
  · exact .forEach (I := fun rest => m.Filling src dst rest)
      (fun kv rest m' h => h.next hm hdst) _

/-! ## The objects in the fields -/

/-- The copy shows what the source shows, and holds objects of the source in the fields `rest`
only. -/
structure Copying (m : Memory) (S : Ptr → Prop) (depth : Nat) (src dst : Ptr)
    (rest : List (Key × Node)) (m' : Memory) : Prop where
  valid : m'.Valid
  kept : m.Extends (· = dst) m'
  live : dst < m'.objects
  own : ∀ k n, (m'.object dst).fields.lookup k = some n → m.nodes ≤ n
  closed : Graph.Closed m'.Child fun p => m.objects ≤ p ∧ p ≠ dst
  tree : m'.read (depth + 1) dst = m.read (depth + 1) src
  bound : ∀ kv ∈ rest, (m'.object dst).fields.lookup kv.1 = some kv.2
  nodup : (rest.map Prod.fst).Nodup
  child : ∀ k n q, (m'.object dst).fields.lookup k = some n → m'.content n = .object q →
    k ∈ rest.map Prod.fst ∧ S q ∨ m.objects ≤ q ∧ q ≠ dst

/-- What the copy may hold: objects of the source, and clones. -/
def Held (m : Memory) (S : Ptr → Prop) (dst p : Ptr) : Prop := S p ∨ m.objects ≤ p ∧ p ≠ dst

theorem Copying.closed_held (hm : m.Valid) (hS : Graph.Closed m.Child S)
    (hlt : ∀ p, S p → p < m.objects) (hdst : ¬ S dst) {rest : List (Key × Node)} {m' : Memory}
    (h : m.Copying S depth src dst rest m') : Graph.Closed m'.Child (m.Held S dst) := by
  rintro p q (hp | hp) hchild
  · have hne : p ≠ dst := fun heq => hdst (heq ▸ hp)
    exact .inl (hS p q hp ((h.kept.child hm (hlt p hp) hne).1 hchild))
  · exact .inr (h.closed p q hp hchild)

/-- There is no object in the field. -/
theorem Copying.skip {kv : Key × Node} {rest : List (Key × Node)} {m' : Memory} {v : Value}
    (h : m.Copying S depth src dst (kv :: rest) m') (hn : m'.content kv.2 = .plain v) :
    m.Copying S depth src dst rest m' := by
  obtain ⟨hkv, hrest⟩ := List.forall_mem_cons.1 h.bound
  refine ⟨h.valid, h.kept, h.live, h.own, h.closed, h.tree, hrest, (List.nodup_cons.1 h.nodup).2,
    fun k n q hk hq => ?_⟩
  refine (h.child k n q hk hq).imp_left fun hmem => ⟨?_, hmem.2⟩
  refine (List.mem_cons.1 hmem.1).resolve_left ?_
  rintro rfl
  rw [← Option.some.inj (hkv.symm.trans hk), hn] at hq
  cases hq

/-- Every field shows what it did. -/
theorem Copying.readNode_next (hm : m.Valid) (hS : Graph.Closed m.Child S)
    (hlt : ∀ p, S p → p < m.objects) (hdst : ¬ S dst) {k l : Key} {n n' : Node}
    {rest : List (Key × Node)} {m' m'' : Memory} {q q' : Ptr}
    (h : m.Copying S depth src dst rest m') (hk : (m'.object dst).fields.lookup k = some n)
    (hn : m'.content n = .object q) (hq : m'.Cloned depth q q' m'') (hfresh : m'.objects ≤ q')
    (hl : (m'.object dst).fields.lookup l = some n') :
    (m''.setContent n (.object q')).readNode depth n' = m'.readNode depth n' := by
  have hkept : m'.Extends (fun _ => False) m'' :=
    hq.kept.mono fun p hp heq => (hfresh.trans_lt (heq ▸ hp)).false
  have hobject : m''.object dst = m'.object dst := hkept.object dst h.live id
  have hother {p : Ptr} {l : Key} {n' : Node} (hl : (m''.object p).fields.lookup l = some n')
      (hne : p ≠ dst) : (m''.setContent n (.object q')).content n' = m''.content n' := by
    refine if_neg ?_
    rintro rfl
    exact hne (hq.valid.owner p dst l k n' hl (hobject ▸ hk)).1
  unfold readNode
  rw [content_setContent]
  split_ifs with heq
  · -- The clone is read in place of the object.
    rw [heq, hn]
    have hsame (p : Ptr) : (m''.setContent n (.object q')).object p = m''.object p := rfl
    have hread : (m''.setContent n (.object q')).read depth q' = m''.read depth q' := by
      refine read_congr hq.closed (fun p _ => congrArg Dyn.fields (hsame p))
        (fun p l n' hp hl => hother hl ?_) depth (.inl rfl)
      rcases hp with rfl | hp
      · exact (h.live.trans_le hfresh).ne'
      · exact (h.live.trans_le hp).ne'
    exact congrArg (Option.map Value.object) (hread.trans hq.tree)
  · rw [hkept.content n' (h.valid.node dst l n' hl)]
    cases hc : m'.content n' with
    | plain v => rfl
    | object c =>
      refine congrArg (Option.map Value.object) ?_
      have hheld : Graph.Closed m'.Child fun p => m.Held S dst p ∧ p < m'.objects :=
        fun p r hp hchild =>
          ⟨h.closed_held hm hS hlt hdst p r hp.1 hchild, h.valid.child p r hchild⟩
      refine read_congr hheld (fun p hp => ?_) (fun p l n₁ hp hl => ?_) depth
        ⟨(h.child l n' c hl hc).imp_left And.right, h.valid.child dst c ⟨l, n', hl, hc⟩⟩
      · exact congrArg Dyn.fields (hkept.object p hp.2 id)
      · have hne : p ≠ dst := by
          rintro rfl
          exact hp.1.elim hdst fun hp => hp.2 rfl
        rw [hother ((hkept.object p hp.2 id).symm ▸ hl) hne]
        exact hkept.content n₁ (h.valid.node p l n₁ hl)

/-- One object is cloned, and the clone takes its place. -/
theorem Copying.next (hm : m.Valid) (hS : Graph.Closed m.Child S)
    (hlt : ∀ p, S p → p < m.objects) (hdst : ¬ S dst) {k : Key} {n : Node}
    {rest : List (Key × Node)} {m' m'' : Memory} {q q' : Ptr}
    (h : m.Copying S depth src dst ((k, n) :: rest) m') (hn : m'.content n = .object q)
    (hq : m'.Cloned depth q q' m'') (hfresh : m'.objects ≤ q') :
    m.Copying S depth src dst rest (m''.setContent n (.object q')) := by
  obtain ⟨hk, hrest⟩ := List.forall_mem_cons.1 h.bound
  have hkept : m'.Extends (fun _ => False) m'' :=
    hq.kept.mono fun p hp heq => (hfresh.trans_lt (heq ▸ hp)).false
  have hobject : m''.object dst = m'.object dst := hkept.object dst h.live id
  have hnew {p : Ptr} (hp : m'.objects ≤ p) : p ≠ dst := (h.live.trans_le hp).ne'
  -- The node that is written is the copy's alone.
  have hother {p : Ptr} {l : Key} {n' : Node} (hl : (m''.object p).fields.lookup l = some n')
      (hne : ¬ (p = dst ∧ l = k)) :
      (m''.setContent n (.object q')).content n' = m''.content n' := by
    refine if_neg ?_
    rintro rfl
    exact hne (hq.valid.owner p dst l k n' hl (hobject ▸ hk))
  have hbefore := h.kept.trans hkept fun _ hp => hp.elim
  refine ⟨hq.valid.setContent fun r hr => ?_, ⟨hbefore.objects, hbefore.nodes, hbefore.object,
    fun n' hn' => ?_, hbefore.classes⟩, h.live.trans_le hkept.objects, fun l n' hl => ?_, ?_,
    h.tree ▸ read_eq fun l => ?_, fun kv hkv => hobject ▸ hrest kv hkv,
    (List.nodup_cons.1 h.nodup).2, fun l n' c hl hc => ?_⟩
  · cases hr
    exact hq.live
  · refine (if_neg ?_).trans (hbefore.content n' hn')
    exact (hn'.trans_le (h.own k n hk)).ne
  · exact h.own l n' (hobject ▸ hl)
  · rintro p c ⟨hp, hne⟩ ⟨l, n', hl, hn'⟩
    rw [hother hl fun heq => hne heq.1] at hn'
    by_cases hlive : p < m'.objects
    · exact h.closed p c ⟨hp, hne⟩ ((hkept.child h.valid hlive id).1 ⟨l, n', hl, hn'⟩)
    · have hc : m'.objects ≤ c := by
        rcases hq.closed p c (.inr (not_lt.1 hlive)) ⟨l, n', hl, hn'⟩ with rfl | hc
        · exact hfresh
        · exact hc
      exact ⟨h.kept.objects.trans hc, hnew hc⟩
  · rw [show (m''.setContent n (.object q')).object dst = m'.object dst from hobject]
    cases hl : (m'.object dst).fields.lookup l with
    | none => rfl
    | some n' => exact congrArg some (h.readNode_next hm hS hlt hdst hk hn hq hfresh hl)
  · by_cases heq : l = k
    · have hn' : n' = n := Option.some.inj ((hobject ▸ hl).symm.trans (heq ▸ hk))
      rw [hn', content_setContent, if_pos rfl] at hc
      cases hc
      exact .inr ⟨h.kept.objects.trans hfresh, hnew hfresh⟩
    · have hl' : (m'.object dst).fields.lookup l = some n' := hobject ▸ hl
      rw [hother hl fun h => heq h.2, hkept.content n' (h.valid.node dst l n' hl')] at hc
      refine (h.child l n' c hl' hc).imp_left fun hmem => ⟨?_, hmem.2⟩
      exact (List.mem_cons.1 hmem.1).resolve_left heq

/-- What `clone_ptr` does, so far as its caller is concerned. -/
def Clones (depth : Nat) (cloneChild : Ptr → MemoryM Ptr) : Prop :=
  ∀ (m : Memory) (q : Ptr), m.Valid → q < m.objects → Triple (· = m) (cloneChild q)
    (fun q' m' => m.objects ≤ q' ∧ m.Cloned depth q q' m')
    fun _ m' => m.Failed (fun _ => False) depth q m'

theorem cloneChildren_cloned (hm : m.Valid) (hS : Graph.Closed m.Child S)
    (hlt : ∀ p, S p → p < m.objects) (hdst : ¬ S dst) {cloneChild : Ptr → MemoryM Ptr}
    (hclone : Clones depth cloneChild) :
    Triple (fun m' => m.Copying S depth src dst (m'.object dst).fields.entries m')
      (cloneChildren cloneChild dst) (fun _ => m.Cloned (depth + 1) src dst)
      fun _ => m.Failed (· = dst) (depth + 1) src := by
  refine getObject_bind fun d => .mono
    (P := fun m' => m.Copying S depth src dst d.fields.entries m')
    (.forEach (I := fun rest => m.Copying S depth src dst rest) (fun kv rest => ?_) _)
    (fun m' h => h.2 ▸ h.1) (fun _ m' h => ?_) fun _ _ h => h
  · intro m' h
    have hrun := getContent_run kv.2 m'
    rw [bind_ok hrun]
    cases hn : m'.content kv.2 with
    | plain v => exact h.skip hn
    | object q =>
      have hq : q < m'.objects :=
        h.valid.child dst q ⟨kv.1, kv.2, h.bound kv (List.mem_cons_self ..), hn⟩
      refine Triple.bind (P := (· = m'))
        (Q := fun q' m'' => m'.objects ≤ q' ∧ m'.Cloned depth q q' m'')
        (S := fun _ => m.Copying S depth src dst rest)
        ((hclone m' q h.valid hq).imp (fun _ _ h => h) fun _ m'' hfail => ?_)
        (fun q' => .modify fun m'' hcloned => ?_) m' rfl
      · refine ⟨hfail.valid, h.kept.trans hfail.kept fun _ hp => hp.elim, ?_⟩
        rw [← h.tree]
        exact read_none ⟨kv.1, kv.2, h.bound kv (List.mem_cons_self ..), hn⟩ hfail.tree
      · exact h.next hm hS hlt hdst hn hcloned.2 hcloned.1
  · refine ⟨h.valid, h.kept, h.live, fun p q hp hchild => ?_, h.tree⟩
    by_cases heq : p = dst
    · obtain ⟨k, n, hk, hn⟩ := heq ▸ hchild
      exact (h.child k n q hk hn).resolve_left fun hmem => nomatch hmem.1
    · exact h.closed p q ⟨hp.resolve_left heq, heq⟩ hchild

/-- The copy holds what the source holds. -/
theorem Filling.copying {m₀ m' : Memory} (hm₀ : m₀.Valid) (hS : Graph.Closed m₀.Child S)
    (hlt : ∀ p, S p → p < m₀.objects) (hdst : ¬ S dst) (hsrc : S src) (hm : m.Valid)
    (hkept : m₀.Extends (· = dst) m) (hlive : dst < m.objects)
    (hclosed : Graph.Closed m.Child fun p => m₀.objects ≤ p ∧ p ≠ dst)
    (h : m.Filling src dst [] m') :
    m₀.Copying S depth src dst (m'.object dst).fields.entries m' := by
  have hobject (p : Ptr) (hp : S p) : m.object p = m₀.object p :=
    hkept.object p (hlt p hp) fun heq => hdst (heq ▸ hp)
  have hsame (k : Key) := h.copied k (nomatch ·)
  have hafter := hkept.trans h.kept fun _ hp _ => hp
  have hS' : Graph.Closed m.Child S := fun p q hp hchild =>
    hS p q hp ((hkept.child hm₀ (hlt p hp) fun heq => hdst (heq ▸ hp)).1 hchild)
  -- A field of the copy, and the field of the source.
  have hfield {k : Key} {n : Node} (hk : (m'.object dst).fields.lookup k = some n) :
      ∃ n₀, (m.object src).fields.lookup k = some n₀ ∧ m'.content n = m.content n₀ := by
    have hk' := hsame k
    rw [hk] at hk'
    obtain ⟨n₀, hn₀, heq⟩ := Option.map_eq_some_iff.1 hk'.symm
    exact ⟨n₀, hn₀, heq.symm⟩
  refine ⟨h.valid, hafter, h.objects ▸ hlive, fun k n hk => hkept.nodes.trans (h.own k n hk),
    ?_, ?_, fun kv hkv => FinMap.mem_entries.1 hkv, FinMap.nodup_keys _, fun k n q hk hq => ?_⟩
  · rintro p q ⟨hp, hne⟩ hchild
    have hp' : p < m.objects := by
      obtain ⟨k, n, hk, -⟩ := hchild
      exact h.objects ▸ h.valid.lt hk
    exact hclosed p q ⟨hp, hne⟩ ((h.kept.child hm hp' hne).1 hchild)
  · -- The fields hold what those of the source hold, and that has not changed.
    refine read_eq fun k => ?_
    rw [← hobject src hsrc]
    cases hk : (m.object src).fields.lookup k with
    | none =>
      have hnone := hsame k
      rw [hk] at hnone
      rw [Option.map_eq_none_iff.1 hnone]
      rfl
    | some n₀ =>
      have hsome := hsame k
      rw [hk] at hsome
      obtain ⟨n, hn, hcontent⟩ := Option.map_eq_some_iff.1 hsome
      rw [hn]
      have hn₀ : m.content n₀ = m₀.content n₀ :=
        hkept.content n₀ (hm₀.node src k n₀ (hobject src hsrc ▸ hk))
      refine congrArg some ?_
      unfold readNode
      rw [hcontent, hn₀]
      cases hq : m₀.content n₀ with
      | plain v => rfl
      | object q =>
        have hchild : S q := hS src q hsrc ⟨k, n₀, hobject src hsrc ▸ hk, hq⟩
        refine congrArg (Option.map Value.object) ?_
        exact hafter.read hm₀ hS hlt (fun p hp heq => hdst (heq ▸ hp)) depth hchild
  · obtain ⟨n₀, hn₀, heq⟩ := hfield hk
    refine .inl ⟨List.mem_map_of_mem (FinMap.mem_entries.2 hk), ?_⟩
    exact hS' src q hsrc ⟨k, n₀, hn₀, heq ▸ hq⟩

/-- The fields and then the objects are copied, into an object on which nothing depends. -/
theorem copyFields_cloned {m₀ : Memory} (hm₀ : m₀.Valid) (hS : Graph.Closed m₀.Child S)
    (hlt : ∀ p, S p → p < m₀.objects) (hdst : ¬ S dst) (hsrc : S src) (hm : m.Valid)
    (hkept : m₀.Extends (· = dst) m) (hlive : dst < m.objects)
    (hclosed : Graph.Closed m.Child fun p => m₀.objects ≤ p ∧ p ≠ dst)
    {cloneChild : Ptr → MemoryM Ptr} (hclone : Clones depth cloneChild) :
    Triple (· = m) (copyFields src dst >>= fun _ => cloneChildren cloneChild dst)
      (fun _ => m₀.Cloned (depth + 1) src dst) fun _ => m₀.Failed (· = dst) (depth + 1) src := by
  refine .bind ((copyFields_filling hm hlive).imp (fun _ _ h => h) fun _ _ h => h.elim) fun _ => ?_
  exact (cloneChildren_cloned hm₀ hS hlt hdst hclone).mono
    (fun m' h => h.copying hm₀ hS hlt hdst hsrc hm hkept hlive hclosed) (fun _ _ h => h)
    fun _ _ h => h

/-- The copy is a new object. -/
theorem copyFields_new {m₀ : Memory} (hm₀ : m₀.Valid) (hsrc : src < m₀.objects) (hm : m.Valid)
    (hkept : m₀.Extends (fun _ => False) m) (hobjects : m.objects = m₀.objects + 1)
    {cloneChild : Ptr → MemoryM Ptr} (hclone : Clones depth cloneChild) :
    Triple (· = m) (do
        copyFields src m₀.objects
        cloneChildren cloneChild m₀.objects
        return m₀.objects)
      (fun dst m' => m₀.objects ≤ dst ∧ m₀.Cloned (depth + 1) src dst m')
      fun _ => m₀.Failed (fun _ => False) (depth + 1) src := by
  have hclosed : Graph.Closed m.Child fun p => m₀.objects ≤ p ∧ p ≠ m₀.objects := by
    rintro p q ⟨hp, hne⟩ ⟨k, n, hk, -⟩
    have hlt : p < m₀.objects + 1 := hobjects ▸ hm.lt hk
    exact (hne (le_antisymm (Nat.le_of_lt_succ hlt) hp)).elim
  have hcloned := copyFields_cloned hm₀ hm₀.closed (fun _ hp => hp) (lt_irrefl _) hsrc hm
    (hkept.mono fun _ _ hp => hp.elim) (hobjects ▸ Nat.lt_succ_self _) hclosed hclone
  rw [← Program.bind_assoc]
  refine .bind (hcloned.imp (fun _ _ h => h) fun _ _ h => ?_) fun _ =>
    .pure fun _ h => ⟨le_rfl, h⟩
  exact ⟨h.valid, h.kept.mono fun p hp heq => (heq ▸ hp).false, h.tree⟩

theorem clonePtr_cloned (depth : Nat) : Clones depth (clonePtr depth) := by
  induction depth with
  | zero => exact fun m q hm hq => .throw fun m' hm' => ⟨hm' ▸ hm, hm' ▸ Extends.refl _ _, rfl⟩
  | succ depth ih =>
    intro m src hm hsrc m' hm'
    subst hm'
    have hnew : ((m'.withObject {}).withField m'.objects CLASS (.plain (.key 0))).Valid :=
      (hm.withObject rfl).withField (Nat.lt_succ_self _) CLASS nofun
    have hkept := ((extends_withObject m' {} fun _ => False).trans
      (extends_withField (m'.withObject {}) m'.objects CLASS (.plain (.key 0)))
        fun p heq hp => hp.ne heq)
    unfold clonePtr
    rw [bind_ok (construct_run m' 0)]
    exact copyFields_new hm hsrc hnew hkept rfl ih _ rfl

theorem copyConstruct_cloned (hm : m.Valid) (hsrc : src < m.objects) (depth : Nat) :
    Triple (· = m) (copyConstruct depth src)
      (fun dst m' => m.objects ≤ dst ∧ m.Cloned (depth + 1) src dst m')
      fun _ => m.Failed (fun _ => False) (depth + 1) src := by
  intro m' hm'
  subst hm'
  have hrun : newObject {} m' = ⟨.ok m'.objects, [], m'.withObject {}⟩ := rfl
  unfold copyConstruct
  rw [bind_ok hrun]
  exact copyFields_new hm hsrc (hm.withObject rfl) (extends_withObject ..) rfl
    (clonePtr_cloned depth) _ rfl

/-- The object that is copied into is not a part of the source. -/
theorem cloneInto_cloned (hm : m.Valid) (hsrc : src < m.objects) (hdst : dst < m.objects)
    (hpart : ¬ m.Reach src dst) (depth : Nat) :
    Triple (· = m) (cloneInto depth src dst) (fun _ => m.Cloned (depth + 1) src dst)
      fun _ => m.Failed (· = dst) (depth + 1) src := by
  refine copyFields_cloned hm (Graph.closed_reach m.Child src) (fun p hp => hm.closed.reach hsrc hp)
    hpart .refl hm (Extends.refl _ _) hdst ?_ (clonePtr_cloned depth)
  rintro p q ⟨hp, -⟩ ⟨k, n, hk, -⟩
  exact (hp.not_gt (hm.lt hk)).elim

/-- The copy can be given to another new object. -/
theorem Cloned.handsOver {m' m'' : Memory} {q : Ptr} (h : m.Cloned depth src q m')
    (hq : m.objects ≤ q) (hdst : m'.objects ≤ dst) (hover : m'.HandsOver q dst m'') :
    m.Cloned depth src dst m'' := by
  have hfresh : m.objects ≤ dst := h.kept.objects.trans hdst
  have hne : q ≠ dst := (h.live.trans_le hdst).ne
  have hchild {p r : Ptr} (hp : p = q ∨ m.objects ≤ p) (hr : m'.Child p r) :
      m.objects ≤ r ∧ r ≠ q ∧ r ≠ dst :=
    ⟨(h.child p r hp hr).1, (h.child p r hp hr).2, ((h.valid.child p r hr).trans_le hdst).ne⟩
  refine ⟨h.valid.handsOver h.live hover, ⟨h.kept.objects.trans hover.objects,
    hover.nodes ▸ h.kept.nodes, fun p hp _ => ?_, fun n hn => ?_,
    hover.classes.trans h.kept.classes⟩, hover.live, fun p r hp hr => ?_, h.tree ▸ ?_⟩
  · have hlt (r : Ptr) (hr : m.objects ≤ r) : p ≠ r := (hp.trans_le hr).ne
    rw [hover.other p (hlt q hq) (hlt dst hfresh)]
    exact h.kept.object p hp (hlt q hq)
  · rw [hover.content]
    exact h.kept.content n hn
  · rcases hover.child hr with ⟨-, hr⟩ | ⟨hdst', -, hr⟩
    · exact ⟨(hchild (.inl rfl) hr).1, (hchild (.inl rfl) hr).2.2⟩
    · have hp := hp.resolve_left hdst'
      exact ⟨(hchild (.inr hp) hr).1, (hchild (.inr hp) hr).2.2⟩
  · cases depth with
    | zero => rfl
    | succ depth =>
      refine read_eq fun k => ?_
      rw [hover.given]
      cases hk : (m'.object q).fields.lookup k with
      | none => rfl
      | some n =>
        refine congrArg some ?_
        unfold readNode
        rw [hover.content]
        cases hn : m'.content n with
        | plain v => rfl
        | object c =>
          -- The parts of the copy are not the object that is given away.
          have hclosed : Graph.Closed m'.Child fun p => m.objects ≤ p ∧ p ≠ q ∧ p ≠ dst :=
            fun p r hp hr => hchild (.inr hp.1) hr
          refine congrArg (Option.map Value.object) (read_congr hclosed (fun p hp => ?_)
            (fun p k n _ _ => ?_) depth (hchild (.inl rfl) ⟨k, n, hk, hn⟩))
          · exact congrArg Dyn.fields (hover.other p hp.2.1 hp.2.2)
          · exact congrFun hover.content n

/-- An object that is moved from and ends leaves its fields to a new object. -/
theorem clone_cloned (hm : m.Valid) (hsrc : src < m.objects) (depth : Nat) :
    Triple (· = m) (clone depth src) (fun dst m' => m.objects ≤ dst ∧ m.Cloned depth src dst m')
      fun _ => m.Failed (fun _ => False) depth src := by
  refine .bind (clonePtr_cloned depth m src hm hsrc) fun q m' h => ?_
  obtain ⟨hfresh, h⟩ := h
  have hne : m'.objects ≠ q := h.live.ne'
  refine ⟨h.kept.objects, h.handsOver hfresh le_rfl ⟨Nat.le_succ _, rfl, rfl, rfl,
    Nat.lt_succ_self _, ?_, ?_, fun p hp hp' => ?_⟩⟩
  · show (if m'.objects = q then _ else if m'.objects = q then _ else
      if m'.objects = m'.objects then ({ fields := (m'.object q).fields } : Dyn) else _).fields = _
    rw [if_neg hne, if_neg hne, if_pos rfl]
  · show (if q = q then ({} : Dyn) else _).fields = ∅
    rw [if_pos rfl]
  · show (if p = q then _ else if p = q then _ else _) = _
    rw [if_neg hp, if_neg hp]
    exact if_neg hp'

end Memory

end Bison
