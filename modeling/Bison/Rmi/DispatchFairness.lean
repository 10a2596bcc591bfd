import Bison.Lib.Simulation
import Bison.Rmi.Lifecycle

/-!
# Fair dispatching

The accept thread deals the sessions out to the dispatch workers in turn, and a worker visits those
in its list lap by lap (server.cpp:306-408). A lap goes over a copy of the list. Sessions are pushed
to the list meanwhile, and those found closed are taken out of it behind the lap.

- `ServerThreads.visits`: the sessions that a worker visits in a step.
- `Serves.step`: a step takes the next session of the lap, or begins a lap with the whole list.
- `dispatch_fair`: **main result**, in every stretch of a run in which the server runs and a session
  is not found closed, its worker visits no other session more than two times more often.
-/

namespace Bison

/-! ## A worker -/

namespace DispatchWorker

/-- The session that a step visits. -/
def visited (w : DispatchWorker) (a : Action) : List Key :=
  match a, w.position with
  | .visit _, .lap (id :: _) _ => [id]
  | _, _ => []

/-- The sessions still to visit in this lap. -/
def current (w : DispatchWorker) : List Key :=
  match w.position with
  | .lap current _ => current
  | _ => []

/-- The sessions found closed that are still in the list. -/
def found (w : DispatchWorker) : List Key :=
  match w.position with
  | .lap _ found => found
  | .closing done id todo => done ++ id.toList ++ todo
  | _ => []

/-- The worker is behind its loop. -/
def Left (w : DispatchWorker) : Prop :=
  match w.position with
  | .leaving => True
  | .sweeping _ _ => True
  | .exited => True
  | _ => False

/-- The session is in the list, and will stay there. -/
structure Serves (w : DispatchWorker) (id : Key) : Prop where
  listed : id ∈ w.sessions
  notFound : id ∉ w.found
  looping : ¬ w.Left

variable {w w' : DispatchWorker} {a : Action} {effect : WorkerEffect} {id : Key}

/-- While the server runs no worker gets behind its loop. -/
theorem left_of_step (h : w.step true a = some (w', effect)) (hleft : w'.Left) : w.Left := by
  obtain ⟨l, position⟩ := w
  unfold step at h
  split at h
  case h_13 => cases h
  all_goals
    next heq =>
    cases heq
    cases h
    exact hleft

/-- A step that leaves the list alone, and what was found of it. -/
theorem Serves.of_same (hserves : w.Serves id) (hsessions : w'.sessions = w.sessions)
    (hfound : id ∈ w'.found → id ∈ w.found) (hleft : w'.Left → w.Left) : w'.Serves id where
  listed := by
    rw [hsessions]
    exact hserves.listed
  notFound := fun hmem => hserves.notFound (hfound hmem)
  looping := fun h => hserves.looping (hleft h)

/-- A step takes the next session of the lap, or begins a lap with the whole list. -/
theorem Serves.step (hserves : w.Serves id)
    (hopen : a = .visit true → w.current.head? ≠ some id)
    (h : w.step true a = some (w', effect)) :
    w'.Serves id ∧ (w.visited a ++ w'.current = w.current ∨
      w.current = [] ∧ w.visited a = [] ∧ w'.current = w.sessions) := by
  have hleft := left_of_step h
  obtain ⟨l, position⟩ := w
  unfold DispatchWorker.step at h
  split at h
  case h_1 heq =>
    cases heq
    cases h
    exact ⟨hserves.of_same rfl nofun hleft, .inl rfl⟩
  case h_2 heq =>
    cases heq
    cases h
    exact ⟨hserves.of_same rfl nofun hleft, .inr ⟨rfl, rfl, rfl⟩⟩
  case h_3 closed first rest found heq =>
    cases heq
    cases h
    refine ⟨hserves.of_same rfl (fun hmem => ?_) hleft, .inl rfl⟩
    cases closed with
    | false => exact hmem
    | true =>
      rcases List.mem_append.1 hmem with hmem | hmem
      · exact hmem
      · -- the one found closed is another one
        obtain rfl := List.mem_singleton.1 hmem
        exact absurd rfl (hopen rfl)
  case h_4 heq =>
    cases heq
    cases h
    exact ⟨hserves.of_same rfl nofun hleft, .inl rfl⟩
  case h_5 found _ heq =>
    cases heq
    cases h
    exact ⟨hserves.of_same rfl (fun hmem => hmem) hleft, .inl rfl⟩
  case h_6 done next todo heq =>
    cases heq
    cases h
    refine ⟨hserves.of_same rfl (fun hmem => ?_) hleft, .inl rfl⟩
    simpa [found] using hmem
  case h_8 done next todo heq =>
    cases heq
    cases h
    refine ⟨hserves.of_same rfl (fun hmem => ?_) hleft, .inl rfl⟩
    simpa [found] using hmem
  case h_10 done heq =>
    cases heq
    cases h
    have hdone : id ∉ done := fun hmem => hserves.notFound (by simpa [found] using hmem)
    exact ⟨⟨List.mem_filter.2 ⟨hserves.listed, decide_eq_true hdone⟩, nofun, nofun⟩, .inl rfl⟩
  case h_13 => cases h
  all_goals
    -- behind the loop
    next heq =>
    cases heq
    exact absurd trivial hserves.looping

theorem Distinct.current_le (hw : w.Distinct) (key : Key) : w.current.count key ≤ 1 := by
  have hpicked := List.nodup_iff_count_le_one.1 hw.picked key
  obtain ⟨l, position⟩ := w
  cases position with
  | lap current found =>
    simp only [DispatchWorker.picked, List.count_append] at hpicked
    show current.count key ≤ 1
    omega
  | _ => exact Nat.zero_le _

/-- What a session has been visited, with the visit to come in this lap, stays within one of what an
open one has. -/
theorem Serves.counts (hserves : w.Serves id) (hw : w.Distinct)
    (hopen : a = .visit true → w.current.head? ≠ some id)
    (h : w.step true a = some (w', effect)) (other : Key) {x y : Nat}
    (hcounts : x + w.current.count other ≤ y + w.current.count id + 1) :
    x + (w.visited a).count other + w'.current.count other ≤
      y + (w.visited a).count id + w'.current.count id + 1 := by
  rcases (hserves.step hopen h).2 with hlap | ⟨hcurrent, hvisited, hsessions⟩
  · have hsame : ∀ key, (w.visited a).count key + w'.current.count key = w.current.count key := by
      intro key
      rw [← List.count_append, hlap]
    have hother := hsame other
    have hid := hsame id
    omega
  · have hother : w.sessions.count other ≤ 1 := List.nodup_iff_count_le_one.1 hw.sessions other
    have hid : 0 < w.sessions.count id := List.count_pos_iff.2 hserves.listed
    rw [hcurrent] at hcounts
    rw [hvisited, hsessions]
    simp only [List.count_nil] at hcounts ⊢
    omega

end DispatchWorker

/-! ## The server -/

namespace ServerThreads

variable {n i : Nat} {s s' : ServerThreads} {a : ServerAction} {id : Key}

/-- The sessions that worker `i` visits in a step. -/
def visits (i : Nat) (s : ServerThreads) : ServerAction → List Key
  | .worker j a => if j = i then (s.workers i).visited a else []
  | _ => []

/-- The server runs, and worker `i` does not find the session closed. -/
def Attended (i : Nat) (id : Key) (s : ServerThreads) : ServerAction → Prop
  | .worker j (.visit true) =>
    s.running = true ∧ (j = i → (s.workers i).current.head? ≠ some id)
  | _ => s.running = true

instance (i : Nat) (id : Key) (s : ServerThreads) (a : ServerAction) :
    Decidable (s.Attended i id a) := by
  unfold Attended
  split <;> infer_instance

theorem Attended.running (h : s.Attended i id a) : s.running = true := by
  unfold Attended at h
  split at h
  · exact h.1
  · exact h

theorem Attended.head (h : s.Attended i id (.worker i (.visit true))) :
    (s.workers i).current.head? ≠ some id := h.2 rfl

/-- What a step does to worker `i`: it is a step of this worker, or leaves it alone except for a
session that is pushed to its list. -/
theorem worker_cases (h : step n s a = some s') (i : Nat) :
    (∃ wa effect, a = .worker i wa ∧
        (s.workers i).step s.running wa = some (s'.workers i, effect)) ∨
      s.visits i a = [] ∧ (s'.workers i).position = (s.workers i).position ∧
        (s.workers i).sessions ⊆ (s'.workers i).sessions := by
  cases a with
  | acceptTest =>
    cases haccept : s.accept <;> simp only [step, haccept, reduceCtorEq] at h
    cases h
    exact .inr ⟨rfl, rfl, fun _ hid => hid⟩
  | accept connection =>
    cases haccept : s.accept <;> simp only [step, haccept, reduceCtorEq] at h
    cases connection with
    | none =>
      cases h
      exact .inr ⟨rfl, rfl, fun _ hid => hid⟩
    | some id =>
      simp only at h
      split at h <;> cases h
      exact .inr ⟨rfl, rfl, fun _ hid => hid⟩
  | push =>
    cases haccept : s.accept <;> simp only [step, haccept, reduceCtorEq] at h
    next id j =>
      cases h
      refine .inr ⟨rfl, ?_⟩
      by_cases hij : i = j
      · subst hij
        rw [show _ = _ from setWorker_self s i _]
        exact ⟨rfl, List.subset_append_left _ _⟩
      · rw [show _ = _ from setWorker_other s _ hij]
        exact ⟨rfl, fun _ hid => hid⟩
  | worker j wa =>
    simp only [step] at h
    split_ifs at h
    split at h
    · next w effect hw =>
      cases h
      rw [apply_workers]
      by_cases hij : i = j
      · subst hij
        rw [setWorker_self]
        exact .inl ⟨wa, effect, rfl, hw⟩
      · rw [setWorker_other s w hij]
        exact .inr ⟨if_neg (Ne.symm hij), rfl, fun _ hid => hid⟩
    · cases h
  | stop =>
    cases h
    exact .inr ⟨rfl, rfl, fun _ hid => hid⟩

/-- While the server runs its workers are in their loops. -/
def Looping (s : ServerThreads) : Prop :=
  s.running = true → ∀ i, ¬ (s.workers i).Left

theorem running_of_step (h : step n s a = some s') (hrunning : s'.running = true) :
    s.running = true := by
  cases a with
  | acceptTest =>
    cases haccept : s.accept <;> simp only [step, haccept, reduceCtorEq] at h
    cases h
    exact hrunning
  | accept connection =>
    cases haccept : s.accept <;> simp only [step, haccept, reduceCtorEq] at h
    cases connection with
    | none =>
      cases h
      exact hrunning
    | some id =>
      simp only at h
      split at h <;> cases h
      exact hrunning
  | push =>
    cases haccept : s.accept <;> simp only [step, haccept, reduceCtorEq] at h
    cases h
    exact hrunning
  | worker j wa =>
    simp only [step] at h
    split_ifs at h
    split at h
    · next w effect hw =>
      cases h
      cases effect <;> exact hrunning
    · cases h
  | stop =>
    cases h
    cases hrunning

theorem Looping.step (h : s.Looping) (hstep : ServerThreads.step n s a = some s') :
    s'.Looping := by
  intro hrunning i hleft
  have hbefore := running_of_step hstep hrunning
  refine h hbefore i ?_
  rcases worker_cases hstep i with ⟨wa, effect, -, hw⟩ | ⟨-, hposition, -⟩
  · rw [hbefore] at hw
    exact DispatchWorker.left_of_step hw hleft
  · unfold DispatchWorker.Left at hleft ⊢
    rwa [hposition] at hleft

theorem looping_listening : ({} : ServerThreads).Looping := fun _ _ => id

/-- What one step does to the counts. -/
theorem counts_of_step (hacc : s.Accounted n) (hserves : (s.workers i).Serves id)
    (hattended : s.Attended i id a) (h : step n s a = some s') (other : Key) {x y : Nat}
    (hcounts : x + (s.workers i).current.count other ≤ y + (s.workers i).current.count id + 1) :
    (s'.workers i).Serves id ∧
      x + (s.visits i a).count other + (s'.workers i).current.count other ≤
        y + (s.visits i a).count id + (s'.workers i).current.count id + 1 := by
  rcases worker_cases h i with ⟨wa, effect, rfl, hw⟩ | ⟨hvisits, hposition, hsessions⟩
  · rw [hattended.running] at hw
    have hopen : wa = .visit true → (s.workers i).current.head? ≠ some id := by
      rintro rfl
      exact hattended.head
    have hvisits : s.visits i (.worker i wa) = (s.workers i).visited wa := if_pos rfl
    rw [hvisits]
    exact ⟨(hserves.step hopen hw).1, hserves.counts (hacc.workers i) hopen hw other hcounts⟩
  · have hcurrent : (s'.workers i).current = (s.workers i).current := by
      unfold DispatchWorker.current
      rw [hposition]
    refine ⟨⟨hsessions hserves.listed, ?_, ?_⟩, ?_⟩
    · unfold DispatchWorker.found
      rw [hposition]
      exact hserves.notFound
    · unfold DispatchWorker.Left
      rw [hposition]
      exact hserves.looping
    · rw [hvisits, hcurrent]
      exact hcounts

/-- What a run does to them, by induction on the run. -/
theorem counts_of_run {actions : List ServerAction} (hacc : s.Accounted n)
    (hserves : (s.workers i).Serves id)
    (hattended : Machine.Each (step n) (Attended i id) s actions)
    (h : Machine.run (step n) s actions = some s') (other : Key) {x y : Nat}
    (hcounts : x + (s.workers i).current.count other ≤ y + (s.workers i).current.count id + 1) :
    x + (Machine.trace (step n) (visits i) s actions).count other +
        (s'.workers i).current.count other ≤
      y + (Machine.trace (step n) (visits i) s actions).count id +
        (s'.workers i).current.count id + 1 := by
  induction actions generalizing s x y with
  | nil =>
    cases h
    exact hcounts
  | cons a actions ih =>
    obtain ⟨mid, hmid, hrest⟩ := Machine.run_cons h
    obtain ⟨hserves', hcounts'⟩ := counts_of_step hacc hserves hattended.1 hmid other hcounts
    have hrun := ih (hacc.step hmid) hserves' (hattended.2 mid hmid) hrest hcounts'
    rw [Machine.trace, hmid, Option.elim_some, List.count_append, List.count_append]
    omega

/-- The `k`-th session goes to worker `k` modulo the number of workers. -/
structure Dealt (n : Nat) (s : ServerThreads) : Prop where
  created : ∀ k p, s.created[k]? = some p → p.2 = k % n
  next : ∃ k, s.nextWorker = k % n ∧ s.created.length = k + s.starting.length

theorem Dealt.of_same (h : s.Dealt n) (hcreated : s'.created = s.created)
    (hnext : s'.nextWorker = s.nextWorker) (hstarting : s'.starting = s.starting) :
    s'.Dealt n where
  created := by
    rw [hcreated]
    exact h.created
  next := by
    rw [hcreated, hnext, hstarting]
    exact h.next

theorem Dealt.step (h : s.Dealt n) (hstep : ServerThreads.step n s a = some s') : s'.Dealt n := by
  cases a with
  | acceptTest =>
    cases haccept : s.accept <;> simp only [ServerThreads.step, haccept, reduceCtorEq] at hstep
    cases hstep
    refine h.of_same rfl rfl ?_
    cases s.running <;> simp [starting, haccept]
  | accept connection =>
    cases haccept : s.accept <;> simp only [ServerThreads.step, haccept, reduceCtorEq] at hstep
    cases connection with
    | none =>
      cases hstep
      refine h.of_same rfl rfl ?_
      simp [starting, haccept]
    | some id =>
      simp only at hstep
      split at hstep <;> cases hstep
      obtain ⟨k, hk, hlength⟩ := h.next
      rw [starting, haccept] at hlength
      refine ⟨fun j p hp => ?_, k, hk, ?_⟩
      · rcases Nat.lt_or_ge j s.created.length with hj | hj
        · rw [List.getElem?_append_left hj] at hp
          exact h.created j p hp
        · -- the new one is the last
          rw [List.getElem?_append_right hj] at hp
          obtain ⟨hlt, rfl⟩ := List.getElem?_eq_some_iff.1 hp
          have hjk : j = k := by
            simp only [List.length_cons, List.length_nil] at hlt hlength
            omega
          rw [List.getElem_singleton, hjk]
          exact hk
      · rw [List.length_append, hlength]
        rfl
  | push =>
    cases haccept : s.accept <;> simp only [ServerThreads.step, haccept, reduceCtorEq] at hstep
    next id j =>
      cases hstep
      obtain ⟨k, hk, hlength⟩ := h.next
      rw [starting, haccept] at hlength
      refine ⟨h.created, k + 1, ?_, hlength⟩
      show (s.nextWorker + 1) % n = (k + 1) % n
      rw [hk, Nat.mod_add_mod]
  | worker j wa =>
    simp only [ServerThreads.step] at hstep
    split_ifs at hstep
    split at hstep
    · next w effect hw =>
      cases hstep
      refine h.of_same ?_ ?_ ?_
      · rw [apply_created]
        rfl
      · rw [apply_nextWorker]
        rfl
      · rw [starting, apply_accept]
        rfl
    · cases hstep
  | stop =>
    cases hstep
    exact h.of_same rfl rfl rfl

theorem dealt_listening (n : Nat) : ({} : ServerThreads).Dealt n :=
  ⟨nofun, 0, (Nat.zero_mod n).symm, rfl⟩

end ServerThreads

open ServerThreads in
/-- **Main result.** Take any run of a server, and any stretch of it from a state in which a session
is in the list of a worker and not found closed, such that the server runs and it stays so: no other
session is visited by the worker more than two times more often than this one. And the sessions are
dealt out in turn: the `k`-th one that was accepted has worker `k` modulo their number. -/
theorem dispatch_fair (n : Nat) (hn : 0 < n) (before actions : List ServerAction)
    {s s' : ServerThreads} (hbefore : Machine.run (step n) {} before = some s)
    (h : Machine.run (step n) s actions = some s') {i : Nat} {id : Key}
    (hlisted : id ∈ (s.workers i).sessions) (hopen : id ∉ (s.workers i).found)
    (hrunning : s.running = true)
    (hattended : Machine.Each (step n) (Attended i id) s actions) :
    (∀ other, (Machine.trace (step n) (visits i) s actions).count other ≤
        (Machine.trace (step n) (visits i) s actions).count id + 2) ∧
      ∀ k p, s'.created[k]? = some p → p.2 = k % n := by
  have hacc : s.Accounted n :=
    Machine.run_invariant (fun _ _ _ h hstep => h.step hstep) (accounted_listening hn) hbefore
  have hlooping : s.Looping :=
    Machine.run_invariant (fun _ _ _ h hstep => h.step hstep) looping_listening hbefore
  have hdealt : s.Dealt n :=
    Machine.run_invariant (fun _ _ _ h hstep => h.step hstep) (dealt_listening n) hbefore
  have hacc' : s'.Accounted n :=
    Machine.run_invariant (fun _ _ _ h hstep => h.step hstep) hacc h
  have hdealt' : s'.Dealt n :=
    Machine.run_invariant (fun _ _ _ h hstep => h.step hstep) hdealt h
  refine ⟨fun other => ?_, hdealt'.created⟩
  have hstart : 0 + (s.workers i).current.count other ≤
      0 + (s.workers i).current.count id + 1 := by
    have hother := (hacc.workers i).current_le other
    omega
  have hcounts := counts_of_run hacc ⟨hlisted, hopen, hlooping hrunning i⟩ hattended h other hstart
  have hid := (hacc'.workers i).current_le id
  omega

/-! ## A session that comes during a lap -/

namespace ServerThreads

/-- The second session is pushed to the list when the lap has begun. -/
def pushedLate : List ServerAction :=
  [.acceptTest, .accept (some 1), .push, .worker 0 .test, .worker 0 .snapshot, .acceptTest,
    .accept (some 2), .push]

/-- The rest of the lap, and the first visit of the next one. -/
def nextLap : List ServerAction :=
  [.worker 0 (.visit false), .worker 0 .endLap, .worker 0 .test, .worker 0 .snapshot,
    .worker 0 (.visit false)]

end ServerThreads

open ServerThreads in
/-- The first session is visited twice before the second one is. -/
theorem dispatch_fair_pushedLate :
    ∃ s, Machine.run (step 1) {} pushedLate = some s ∧
      Machine.trace (step 1) (visits 0) s nextLap = [1, 1] ∧
      (Machine.trace (step 1) (visits 0) s nextLap).count 1 ≤
        (Machine.trace (step 1) (visits 0) s nextLap).count 2 + 2 := by
  have hfacts : (Machine.run (step 1) {} pushedLate).map (fun s =>
      (s.workers 0, s.running, Machine.trace (step 1) (visits 0) s nextLap,
        (Machine.run (step 1) s nextLap).isSome,
        decide (Machine.Each (step 1) (Attended 0 2) s nextLap))) =
      some (⟨[1, 2], .lap [1] []⟩, true, [1, 1], true, true) := by decide +kernel
  obtain ⟨s, hs, hall⟩ := Option.map_eq_some_iff.1 hfacts
  simp only [Prod.mk.injEq, decide_eq_true_eq] at hall
  obtain ⟨hworker, hrunning, htrace, hnext, hattended⟩ := hall
  obtain ⟨s', hs'⟩ := Option.isSome_iff_exists.1 hnext
  have hlisted : 2 ∈ (s.workers 0).sessions := by
    rw [hworker]
    decide
  have hopen : 2 ∉ (s.workers 0).found := by
    rw [hworker]
    decide
  exact ⟨s, hs, htrace, (dispatch_fair 1 Nat.one_pos pushedLate nextLap hs hs' hlisted hopen
    hrunning hattended).1 1⟩

end Bison
