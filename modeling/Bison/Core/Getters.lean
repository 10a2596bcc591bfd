import Bison.Core.CApi
import Bison.Core.QuietLookups

/-!
# The getters of the C API

A getter looks its field up with `operator[]` and reads it with `as<T>()`. Where there is a value
they read it. Where there is none, the first adds the field and the second gives it a value: then
the object has the field, and the field has a type.

- `Entry.OnlyReads`: the lookup of the getter finds a value, or throws and has not written anything.
- `answers`, `answersWithout`: the answers of the other calls of a sequence, with the getters
  between them and without.
- `getters_only_read`: **main result**, getters that find a value only read, and others create one.
- `getter_fixes_type`: a getter of an integer, after which no text can be set.
-/

namespace Bison.CApi

open Memory

variable {ρ α : Type}

/-- A call in a sequence: one of the getters that are put between the others, or another one. -/
inductive Entry (ρ : Type) : Type 1 where
  | getter (T : FieldType) (h : Option Ptr) (name : Key) (out : Bool)
  | call {α : Type} (p : Api ρ α)

/-- What a call returns, or what it throws. -/
abbrev Answer := (α : Type) × Except Exn α

namespace Entry

def isCall : Entry ρ → Bool
  | getter _ _ _ _ => false
  | call _ => true

/-- The state after the call. -/
def next (depth : Nat) (s : Memory × ρ) : Entry ρ → Memory × ρ
  | getter T h name out => ((bisonGet T h name out).run depth s).state
  | call p => (p.run depth s).state

/-- Without the getter, at most the default is copied that the object has for the field. -/
def nextWithout (depth : Nat) (s : Memory × ρ) : Entry ρ → Memory × ρ
  | getter _ (some p) name true => (copyDefault depth p name s.1, s.2)
  | getter _ _ _ _ => s
  | call p => (p.run depth s).state

/-- The answer of a call that is not one of the getters. -/
def answer (depth : Nat) (s : Memory × ρ) : Entry ρ → List Answer
  | getter _ _ _ _ => []
  | call p => [⟨_, (p.run depth s).result⟩]

/-- The arguments are valid, and of a field where the lookup finds a value, or throws. Or an
argument is NULL. -/
def OnlyReads (s : Memory × ρ) : Entry ρ → Prop
  | getter _ (some p) name true => p < s.1.objects ∧ s.1.Answerable p name
  | _ => True

/-- The object has the field. -/
def Present (s : Memory × ρ) : Entry ρ → Prop
  | getter _ (some p) name true => ((s.1.object p).fields.lookup name).isSome
  | _ => True

end Entry

/-- `P` holds of every call of the sequence, in the state in which it is made. -/
def Along (depth : Nat) (P : Memory × ρ → Entry ρ → Prop) : Memory × ρ → List (Entry ρ) → Prop
  | _, [] => True
  | s, e :: es => P s e ∧ Along depth P (e.next depth s) es

/-- The answers of the calls that are not getters. -/
def answers (depth : Nat) : Memory × ρ → List (Entry ρ) → List Answer
  | _, [] => []
  | s, e :: es => e.answer depth s ++ answers depth (e.next depth s) es

/-- Their answers without the getters. -/
def answersWithout (depth : Nat) : Memory × ρ → List (Entry ρ) → List Answer
  | _, [] => []
  | s, e :: es => e.answer depth s ++ answersWithout depth (e.nextWithout depth s) es

/-- The state after the sequence. -/
def after (depth : Nat) : Memory × ρ → List (Entry ρ) → Memory × ρ
  | s, [] => s
  | s, e :: es => after depth (e.next depth s) es

/-! ## What a getter does -/

variable {depth : Nat} {m : Memory} {r : ρ} {s t : Memory × ρ} {p : Ptr} {name : Key}
  {T : FieldType}

theorem catchType_state (q : Api ρ α) (s : Memory × ρ) :
    ((catchType q).run depth s).state = (q.run depth s).state := by
  show ((Program.attempt Api.caught (q.run depth) >>= fun r => Api.run depth _) s).state = _
  rw [Program.bind_run]
  unfold Program.attempt
  rcases q.run depth s with ⟨e | a, trace, s'⟩
  · cases e <;> rfl
  · rfl

/-- What it is given is there. -/
theorem Member.runLive_of_live {f : Member α} (h : ∀ p ∈ f.targets, p < m.objects) :
    f.runLive depth m = f.run depth m := by
  rw [f.runLive_eq, if_pos h]

theorem Member.runLive_of_nil {f : Member α} (h : f.targets = []) :
    f.runLive depth = f.run depth :=
  funext fun _ => runLive_of_live fun p hp => by
    rw [h] at hp
    cases hp

theorem bisonGet_state (hp : p < m.objects) :
    ((bisonGet T (some p) name true).run depth (m, r)).state =
      ((getField depth T p name m).state, r) := by
  have hlive : ∀ q ∈ (Member.subscript p name).targets, q < m.objects := by
    intro q hq
    rw [List.mem_singleton.1 hq]
    exact hp
  have hsubscript : (Member.subscript p name).runLive depth m = Memory.subscript depth p name m :=
    Member.runLive_of_live hlive
  have hrest (n : Node) : ((asType T n >>= fun _ => getContent n : MemoryM Content).onFirst :
      Program Exn Empty (Memory × ρ) Content) = (((Member.asType T n).runLive depth).onFirst >>=
        fun _ => ((Member.content n).runLive depth).onFirst) := by
    rw [Program.onFirst_bind, Member.runLive_of_nil rfl, Member.runLive_of_nil rfl]
    rfl
  have hget : ((Member.subscript p name).runLive depth >>= fun n => asType T n >>= fun _ =>
      getContent n) m = getField depth T p name m := by
    rw [Program.bind_run, hsubscript]
    rfl
  have hbody : (((Member.subscript p name).runLive depth).onFirst >>= fun n =>
      ((Member.asType T n).runLive depth).onFirst >>= fun _ =>
        ((Member.content n).runLive depth).onFirst : Program Exn Empty (Memory × ρ) Content) =
      ((Member.subscript p name).runLive depth >>= fun n => asType T n >>= fun _ =>
        getContent n).onFirst := by
    rw [Program.onFirst_bind]
    simp only [hrest]
  refine (catchType_state _ _).trans ?_
  refine (congrArg (fun q => (q (m, r)).state) hbody).trans ?_
  exact congrArg (fun o => (Program.Outcome.state o, r)) hget

/-! ## Sequences -/

/-- A getter leaves what has not been seen unseen. -/
theorem Entry.next_unseen {e : Entry ρ} (h : Unseen s t) (he : e.OnlyReads s) :
    Unseen (e.next depth s) (e.nextWithout depth t) := by
  cases e with
  | call p => exact (p.run_indistinct depth s t h).2.2
  | getter T handle name out =>
    -- With an argument that is NULL nothing is done.
    cases handle with
    | none => exact h
    | some p =>
      cases out with
      | false => exact h
      | true =>
        obtain ⟨m, r⟩ := s
        obtain ⟨m', r'⟩ := t
        obtain ⟨hm, rfl⟩ := h
        obtain ⟨hp, hanswerable⟩ := he
        have hlive := live_of_unseen hm
        have hget := getField_state (T := T) depth hlive.left hp hanswerable
        have hself : Unseen (m, r) (m, r) := ⟨⟨hm.left, hm.left, .refl m⟩, rfl⟩
        have hleft := ((bisonGet T (some p) name true).run_indistinct depth _ _ hself).2.2.1.left
        have hright := copyDefault_fit hlive.right hp depth name
        rw [bisonGet_state hp] at hleft
        refine ⟨⟨?_, ⟨hright.settled, nofun, nofun, nofun⟩, ?_⟩, ?_⟩
        · rw [Entry.next, bisonGet_state hp]
          exact hleft
        · rw [Entry.next, bisonGet_state hp]
          exact hget.symm.trans (hm.same.copyDefault depth p name)
        · rw [Entry.next, bisonGet_state hp]
          rfl

theorem Entry.answer_unseen (h : Unseen s t) (e : Entry ρ) :
    e.answer depth s = e.answer depth t := by
  cases e with
  | getter T handle name out => rfl
  | call p =>
    exact congrArg (fun r => [(⟨_, r⟩ : Answer)]) (p.run_indistinct depth s t h).1

/-- Nothing is copied into an object that has the field. -/
theorem Entry.nextWithout_present {e : Entry ρ} (h : Unseen s t) (he : e.Present s)
    (hgetter : e.isCall = false) : e.nextWithout depth t = t := by
  cases e with
  | call p => cases hgetter
  | getter T handle name out =>
    cases handle with
    | none => rfl
    | some p =>
      cases out with
      | false => rfl
      | true =>
        have hp : ((t.1.object p).fields.lookup name).isSome := by
          rw [(h.1.same.object p).fields]
          exact he
        exact congrArg (·, t.2) (if_pos (.inl hp))

theorem answers_unseen {es : List (Entry ρ)} (h : Unseen s t)
    (hes : Along depth Entry.OnlyReads s es) :
    answers depth s es = answersWithout depth t es := by
  induction es generalizing s t with
  | nil => rfl
  | cons e es ih =>
    obtain ⟨he, hrest⟩ := hes
    exact congrArg₂ (· ++ ·) (e.answer_unseen h) (ih (e.next_unseen h he) hrest)

theorem answers_removed {es : List (Entry ρ)} (h : Unseen s t)
    (hes : Along depth Entry.OnlyReads s es)
    (hpresent : Along depth Entry.Present s es) :
    answers depth s es = answers depth t (es.filter Entry.isCall) := by
  induction es generalizing s t with
  | nil => rfl
  | cons e es ih =>
    obtain ⟨he, hrest⟩ := hes
    obtain ⟨hp, hpresent⟩ := hpresent
    have hnext : Unseen (e.next depth s) (e.nextWithout depth t) := e.next_unseen h he
    have hih := ih hnext hrest hpresent
    cases hcall : e.isCall with
    | false =>
      rw [e.nextWithout_present h hp hcall] at hih
      rw [List.filter_cons_of_neg (by rw [hcall]; nofun), ← hih]
      cases e with
      | getter T handle name out => rfl
      | call p => cases hcall
    | true =>
      rw [List.filter_cons_of_pos hcall]
      cases e with
      | getter T handle name out => cases hcall
      | call p => exact congrArg₂ (· ++ ·) (Entry.answer_unseen h (.call p)) hih

/-- At the start there is nothing to be seen. -/
theorem unseen_start (r : ρ) : Unseen (({} : Memory), r) ({}, r) := by
  have hfit : ({} : Memory).Fit fun _ => False :=
    ⟨fun _ => Dyn.settled_of_empty rfl, nofun, nofun, nofun⟩
  exact ⟨⟨hfit, hfit, .refl _⟩, rfl⟩

/-- Whatever the calls are, the caches stay settled. -/
theorem Entry.next_settled (h : Unseen s s) (e : Entry ρ) :
    Unseen (e.next depth s) (e.next depth s) := by
  cases e with
  | getter T handle name out => exact ((bisonGet T handle name out).run_indistinct depth s s h).2.2
  | call p => exact (p.run_indistinct depth s s h).2.2

theorem after_settled (h : Unseen s s) (es : List (Entry ρ)) :
    Unseen (after depth s es) (after depth s es) := by
  induction es generalizing s with
  | nil => exact h
  | cons e es ih => exact ih (e.next_settled h)

theorem bisonGet_creates (h : Unseen s s) (hp : p < s.1.objects) {found : Option Node}
    (hfound : (Memory.findField depth p name s.1).result = .ok found)
    (hanswerable : ¬ s.1.Answerable p name) :
    ((bisonGet T (some p) name true).run depth s).state.1.HasValue p name ∧
      ¬ (copyDefault depth p name s.1).HasValue p name := by
  refine ⟨?_, copyDefault_empty hanswerable⟩
  obtain ⟨m, r⟩ := s
  rw [bisonGet_state hp]
  exact getField_value (live_of_unseen h.1).left hp hfound

/-- **Main result**: in a sequence in which every getter finds a value, or throws before it has
written anything, the other calls (those of `bison_size` and `bison_serialize` among them) answer
as they do if in its place the default that the object has for the field is copied into it, and as
they do without the getters if the objects have the fields. After any sequence, a getter whose
lookup returns and finds no value creates one. -/
theorem getters_only_read (depth : Nat) (r : ρ) (es : List (Entry ρ)) :
    (Along depth Entry.OnlyReads ({}, r) es →
      answers depth ({}, r) es = answersWithout depth ({}, r) es ∧
        (Along depth Entry.Present ({}, r) es →
          answers depth ({}, r) es = answers depth ({}, r) (es.filter Entry.isCall))) ∧
      ∀ T p name found, let s := after depth ({}, r) es
        p < s.1.objects → (Memory.findField depth p name s.1).result = .ok found →
          ¬ s.1.Answerable p name →
            ((bisonGet T (some p) name true).run depth s).state.1.HasValue p name ∧
              ¬ (copyDefault depth p name s.1).HasValue p name := by
  have hstart := unseen_start r
  refine ⟨fun hes => ⟨answers_unseen hstart hes, answers_removed hstart hes⟩, ?_⟩
  intro T p name found s hp hfound hanswerable
  exact bisonGet_creates (after_settled hstart es) hp hfound hanswerable

/-- A field that the class of the object has, and one that the object has. -/
def readEntries : List (Entry Unit) :=
  [.call (bisonCreate 7), .call (bisonAddField (some 0) 100 (.plain (.int32 1))),
    .call (bisonAddClass 9 (some 0) 0), .call (bisonInstantiate 9 7),
    .getter .int32 (some 1) 100 true, .getter .string (some 0) 100 true,
    .call (bisonSetInt (some 1) 100 2)]

theorem getters_only_read_default :
    answers 1 ({}, ()) readEntries = answersWithout 1 ({}, ()) readEntries ∧
      ((bisonGet .int32 (some 1) 200 true).run 1 (after 1 ({}, ()) readEntries)).state.1.HasValue
        1 200 := by
  have hes : Along 1 Entry.OnlyReads ({}, ()) readEntries := by
    refine ⟨trivial, trivial, trivial, trivial, ⟨?_, ?_⟩, ⟨?_, ?_⟩, trivial, trivial⟩
    · decide
    · exact ⟨nofun, nofun⟩
    · decide
    · exact nofun
  -- The field 200 is in no class.
  obtain ⟨honly, hcreates⟩ := getters_only_read 1 () readEntries
  exact ⟨(honly hes).1, (hcreates .int32 1 200 none (by decide) rfl And.right).1⟩

def fixedEntries : List (Entry Unit) :=
  [.call (bisonCreate 0), .getter .int32 (some 0) 5 true, .call (bisonSize (some 0)),
    .call (bisonSetString (some 0) 5 [])]

/-- After the getter the object has a field, which is an integer: it has a size, and no text can be
set there. -/
theorem getter_fixes_type :
    answers 1 ({}, ()) fixedEntries = [⟨Ptr, .ok 0⟩, ⟨Nat, .ok 6⟩, ⟨BisonError, .ok .type⟩] ∧
      answers 1 ({}, ()) (fixedEntries.filter Entry.isCall) =
        [⟨Ptr, .ok 0⟩, ⟨Nat, .ok 0⟩, ⟨BisonError, .ok .ok⟩] ∧
      answers 1 ({}, ()) fixedEntries ≠ answersWithout 1 ({}, ()) fixedEntries := by
  refine ⟨rfl, rfl, fun heq => ?_⟩
  change [(⟨Ptr, .ok 0⟩ : Answer), ⟨Nat, .ok 6⟩, ⟨BisonError, .ok .type⟩] =
    [⟨Ptr, .ok 0⟩, ⟨Nat, .ok 0⟩, ⟨BisonError, .ok .ok⟩] at heq
  cases heq

end Bison.CApi
