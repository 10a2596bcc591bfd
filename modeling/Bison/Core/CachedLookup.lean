import Bison.Core.ValidHeap

/-!
# Cached lookups

`findField` remembers what it found, and that it found nothing, while classes go on being
registered. What it remembers of fields that are there is right in every run (`reached_fit`). That
there is none it goes on saying when a class has come to declare the field.

- `AnswersUncached`: the call answers what the object and its chain have for the field now.
- `Fresh`: no miss is remembered of a field that has a default now.
- `findField_uncached`: **main result**, in every run fresh calls answer that.
- `registered_late`: an object that was made and asked before its class was registered.
-/

namespace Bison

namespace Memory

open Program

/-- The call returns the field of the object if there is one, else a copy of the default of the
nearest class that declares it now, else null. It may fail if the stack does not do for the
default. -/
def AnswersUncached (depth : Nat) (m : Memory) (p : Ptr) (name : Key) : Prop :=
  match (m.object p).fields.lookup name with
  | some n => (findField depth p name m).result = .ok (some n)
  | none => ∀ found, m.Default p name found →
    match found with
    | none => (findField depth p name m).result = .ok none
    | some n₀ => ∃ m₁, m.Looked p m₁ ∧ ((m₁.readNode depth n₀).isSome → ∃ n,
      (findField depth p name m).result = .ok (some n) ∧
        (findField depth p name m).state.readNode depth n = m₁.readNode depth n₀)

/-- No miss is remembered of a field that has a default now, and the lookup does not itself write
the field, as it does with keys that it needs and that are absent. -/
structure Fresh (m : Memory) (p : Ptr) (name : Key) : Prop where
  missed : (m.object p).lookup.lookup name = some none → ∀ n, ¬ m.Default p name (some n)
  unfilled : (m.object p).fields.lookup name = none → m.Unfilled p name

variable {m : Memory} {p : Ptr} {name : Key} {depth : Nat}

theorem Default.unique {found found' : Option Node} (h : m.Default p name found)
    (h' : m.Default p name found') : found = found' := by
  cases h with
  | unknown hns hcol =>
    cases h' with
    | unknown _ _ => rfl
    | nearest hns' hcol' _ _ =>
      cases hns.symm.trans hns'
      cases hcol.symm.trans hcol'
  | nearest hns hcol hklass hnearest =>
    cases h' with
    | unknown hns' hcol' =>
      cases hns.symm.trans hns'
      cases hcol.symm.trans hcol'
    | nearest hns' hcol' hklass' hnearest' =>
      cases hns.symm.trans hns'
      cases hcol.symm.trans hcol'
      cases hklass.symm.trans hklass'
      exact hnearest.unique hnearest'

theorem findField_cached {found : Option Node}
    (h : (m.object p).lookup.lookup name = some found) :
    findField depth p name m = ⟨.ok found, [], m⟩ := by
  unfold findField
  rw [bind_ok (getObject_run p m)]
  simp only [h]
  rfl

/-- A field that is found is remembered, and shows what it did. -/
theorem cacheNew_found (p : Ptr) (name : Key) (n : Node) (m : Memory) :
    ∃ m', (do cacheNew p name n; return some n : MemoryM (Option Node)) m = ⟨.ok (some n), [], m'⟩ ∧
      ∀ depth, m'.readNode depth n = m.readNode depth n := by
  rcases cacheNew_run p name n m with hrun | hrun <;> rw [bind_ok hrun]
  · exact ⟨m, rfl, fun _ => rfl⟩
  · exact ⟨_, rfl, fun depth => readNode_withCache m p _ depth n⟩

/-- A lookup of which the object itself knows nothing goes to the registry. -/
theorem findField_run (hcached : (m.object p).lookup.lookup name = none)
    (hown : (m.object p).fields.lookup name = none) :
    findField depth p name m = (searchClasses depth p name >>= fun _ =>
      getObject p >>= fun d => match d.fields.lookup name with
        | some n => do
          cacheNew p name n
          return some n
        | none => do
          cache p name none
          return none) m := by
  unfold findField
  rw [bind_ok (getObject_run p m)]
  simp only [hcached]
  rw [bind_ok (getObject_run p m)]
  simp only [hown]
  rfl

/-- What is found there is the default. -/
theorem findField_searched (hm : m.Valid) (hp : p < m.objects)
    (hcached : (m.object p).lookup.lookup name = none)
    (hown : (m.object p).fields.lookup name = none) (hunfilled : m.Unfilled p name) :
    AnswersUncached depth m p name := by
  have hsearch := (searchClasses_answers hm hp hown :
    Triple (· = m) (searchClasses depth p name) _ _) m rfl
  unfold AnswersUncached
  rw [hown]
  intro found hfound
  rcases hs : searchClasses depth p name m with ⟨e | u, trace, m'⟩ <;> rw [hs] at hsearch
  · obtain ⟨n₀, m₁, rfl, hlooked, hnone⟩ := hsearch.2 hunfilled found hfound
    refine ⟨m₁, hlooked, fun hsome => ?_⟩
    rw [hnone] at hsome
    cases hsome
  · obtain ⟨found', hfound', hanswered⟩ := hsearch.2 hunfilled
    cases hfound.unique hfound'
    rw [findField_run hcached hown, bind_ok hs, bind_ok (getObject_run p m')]
    cases found with
    | none =>
      have hlooked : m.Looked p m' := hanswered
      have hnone := (hlooked.lookup (hunfilled p)).trans hown
      simp only [hnone]
      rfl
    | some n₀ =>
      obtain ⟨m₁, n, hlooked, hn, hread, -⟩ := hanswered
      obtain ⟨m'', hdone, hsame⟩ := cacheNew_found p name n m'
      simp only [hn, hdone]
      exact ⟨m₁, hlooked, fun _ => ⟨n, rfl, (hsame depth).trans hread⟩⟩

/-- A call in a memory in which the caches are coherent. -/
theorem findField_fresh (hm : m.Valid) (hcoherent : m.Coherent) (hp : p < m.objects)
    (hfresh : m.Fresh p name) : AnswersUncached depth m p name := by
  cases hcached : (m.object p).lookup.lookup name with
  | some found =>
    have hrun : findField depth p name m = ⟨.ok found, [], m⟩ := findField_cached hcached
    have hown := hcoherent p name found hcached
    unfold AnswersUncached
    rw [hown, hrun]
    cases found with
    | some n => rfl
    | none =>
      intro found hfound
      cases found with
      | none => rfl
      | some n₀ => exact (hfresh.missed hcached n₀ hfound).elim
  | none =>
    cases hown : (m.object p).fields.lookup name with
    | none => exact findField_searched hm hp hcached hown (hfresh.unfilled hown)
    | some n =>
      obtain ⟨m', hdone, -⟩ := cacheNew_found p name n m
      have hrun : findField depth p name m = ⟨.ok (some n), [], m'⟩ := by
        unfold findField
        rw [bind_ok (getObject_run p m)]
        simp only [hcached]
        rw [bind_ok (getObject_run p m)]
        simp only [hown, hdone]
        rfl
      unfold AnswersUncached
      rw [hown, hrun]

/-- **Main result**: in every run, a lookup answers what the object and its chain have for the
field now, if no miss is remembered that is none any more. -/
theorem findField_uncached {room : Nat} {ops : List Operation}
    (hclean : Machine.Each (step room) (fun m op => op.Clean m) {} ops)
    (hrun : Machine.run (step room) {} ops = some m) (hp : p < m.objects)
    (hfresh : m.Fresh p name) : AnswersUncached depth m p name :=
  findField_fresh (reached_valid hrun) (fun p => ((reached_fit hclean hrun).settled p).coherent) hp
    hfresh

/-- A class that has a field, and an object of it. -/
theorem findField_uncached_registered :
    ∃ m : Memory, 1 < m.objects ∧ AnswersUncached 1 m 1 100 := by
  have hclean : Machine.Each (step 1) (fun m op => op.Clean m) {}
      [.construct 7 (FinMap.insert 100 (.plain (.int32 1)) ∅), .addClass 0 0 0, .construct 7 ∅] :=
    (Machine.each_cons rfl).2 ⟨trivial, (Machine.each_cons rfl).2 ⟨trivial,
      (Machine.each_cons rfl).2 ⟨trivial, trivial⟩⟩⟩
  refine ⟨_, by decide, findField_uncached hclean rfl (by decide) ⟨?_, fun _ q => ?_⟩⟩
  · intro hmiss
    cases hmiss
  · rintro (⟨-, h | h⟩ | ⟨-, h⟩) <;> exact absurd h (by decide)

/-- The object is asked for a field that its class has, before the class is registered. -/
theorem registered_late : ∃ m : Memory, Machine.run (step 1) {}
    [.construct 7 ∅, .findField 0 100,
      .construct 7 (FinMap.insert 100 (.plain (.int32 1)) ∅), .addClass 0 1 0] = some m ∧
    ¬ AnswersUncached 1 m 0 100 := by
  refine ⟨_, rfl, fun h => ?_⟩
  obtain ⟨m₁, hlooked, hread⟩ := h (some 2) (.nearest rfl rfl rfl (.declared rfl rfl))
  have hcontent : m₁.content 2 = .plain (.int32 1) := by
    rcases (hlooked.kept 1 100 2 rfl).2 with hsame | ⟨-, hempty, -⟩
    · exact hsame
    · cases hempty
  have hsome : (m₁.readNode 1 2).isSome := by
    rw [readNode, hcontent]
    rfl
  obtain ⟨n, hfound, -⟩ := hread hsome
  cases hfound

end Memory

end Bison
