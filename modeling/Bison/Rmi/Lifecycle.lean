import Bison.Core.Value
import Bison.Lib.Machine

/-!
# The threads of a server

The accept thread hands each new session to one of the dispatch workers; a worker serves the
sessions in its list, tears down those whose connection is closed, and tears down what is left
in its list when the server stops (server.cpp:249-488). A session is named by its id.

The accept thread may be inside `start_session` when `stop` clears `running_`. Nothing makes a
worker wait for it before the worker's last sweep.

- `sessions_torn_down`: **main result**, when `stop` has returned every session was torn down
  exactly once, in every run in which no session is pushed to the list of a worker that has
  swept it.
- `torn_down_once`: no session is torn down twice, in any run.
-/

namespace Bison

/-- Where a dispatch worker is. -/
inductive WorkerPosition where
  /-- At the condition of its loop. -/
  | testing
  | snapshotting
  /-- In a lap: the sessions still to visit, and those found closed. -/
  | lap (current closed : List Key)
  /-- Tearing down the closed ones: those done, the one whose hooks have run, those to do. -/
  | closing (done : List Key) (hooked : Option Key) (todo : List Key)
  /-- Behind its loop. -/
  | leaving
  /-- In the shutdown sweep. -/
  | sweeping (hooked : Option Key) (remaining : List Key)
  | exited
  deriving DecidableEq

/-- A dispatch worker and the list of sessions assigned to it. -/
structure DispatchWorker where
  sessions : List Key := []
  position : WorkerPosition := .testing
  deriving DecidableEq

/-- Where the accept thread is. -/
inductive AcceptPosition where
  | testing
  | accepting
  /-- In `start_session`, behind `on_session_created`. -/
  | starting (id : Key) (worker : Nat)
  | exited
  deriving DecidableEq

/-- What a worker does in a step to the rest of the server. -/
inductive WorkerEffect where
  | none
  /-- `on_session_destroyed` and `cleanup_context` of a session. -/
  | hooks (id : Key)
  /-- `session_contexts_.erase`. -/
  | unregister (id : Key)

/-- The session whose hooks a step runs. -/
def WorkerEffect.destroys : WorkerEffect → List Key
  | .hooks id => [id]
  | _ => []

namespace DispatchWorker

/-- The steps of a worker. -/
inductive Action where
  | test
  | snapshot
  /-- Serve the next session of the lap; `closed` is what its connection says. -/
  | visit (closed : Bool)
  | endLap
  | hooks
  | unregister
  /-- Take the closed sessions out of the list. -/
  | erase
  | sweep
  | exit

/-- `dispatch_worker` (server.cpp:366). -/
def step (running : Bool) (w : DispatchWorker) (a : Action) :
    Option (DispatchWorker × WorkerEffect) :=
  match a, w.position with
  | .test, .testing =>
    some ({ w with position := if running then .snapshotting else .leaving }, .none)
  | .snapshot, .snapshotting => some ({ w with position := .lap w.sessions [] }, .none)
  | .visit closed, .lap (id :: rest) found =>
    if running then
      some ({ w with position := .lap rest (if closed then found ++ [id] else found) }, .none)
    else some ({ w with position := .lap [] found }, .none)
  | .endLap, .lap [] [] => some ({ w with position := .testing }, .none)
  | .endLap, .lap [] found => some ({ w with position := .closing [] none found }, .none)
  | .hooks, .closing done none (id :: todo) =>
    some ({ w with position := .closing done (some id) todo }, .hooks id)
  | .hooks, .sweeping none (id :: remaining) =>
    some ({ w with position := .sweeping (some id) remaining }, .hooks id)
  | .unregister, .closing done (some id) todo =>
    some ({ w with position := .closing (done ++ [id]) none todo }, .unregister id)
  | .unregister, .sweeping (some id) remaining =>
    some ({ w with position := .sweeping none remaining }, .unregister id)
  | .erase, .closing done none [] =>
    some ({ sessions := w.sessions.filter fun id => id ∉ done, position := .testing }, .none)
  | .sweep, .leaving => some ({ sessions := [], position := .sweeping none w.sessions }, .none)
  | .exit, .sweeping none [] => some ({ w with position := .exited }, .none)
  | _, _ => none

/-- The session whose hooks have run, but which is still registered. -/
def hooked (w : DispatchWorker) : List Key :=
  match w.position with
  | .closing _ id _ => id.toList
  | .sweeping id _ => id.toList
  | _ => []

/-- The sessions whose hooks have run, but which are still in the list. -/
def extra (w : DispatchWorker) : List Key :=
  match w.position with
  | .closing done id _ => done ++ id.toList
  | _ => []

/-- The sessions in the list, and those taken out of it by the sweep. -/
def due (w : DispatchWorker) : List Key :=
  match w.position with
  | .sweeping _ remaining => w.sessions ++ remaining
  | _ => w.sessions

/-- The worker will not look at its list again. -/
def Swept (w : DispatchWorker) : Prop :=
  match w.position with
  | .sweeping _ _ => True
  | .exited => True
  | _ => False

instance (w : DispatchWorker) : Decidable w.Swept := by
  unfold Swept
  split <;> infer_instance

/-- The sessions the worker has picked out of its list. -/
def picked (w : DispatchWorker) : List Key :=
  match w.position with
  | .lap current found => found ++ current
  | .closing done id todo => done ++ id.toList ++ todo
  | _ => []

/-- No session is in the list twice, or picked out of it twice. -/
structure Distinct (w : DispatchWorker) : Prop where
  sessions : w.sessions.Nodup
  picked : w.picked.Nodup
  subset : w.picked ⊆ w.sessions

end DispatchWorker

/-- The threads of a server with some number of workers. -/
structure ServerThreads where
  running : Bool := true
  accept : AcceptPosition := .testing
  nextWorker : Nat := 0
  workers : Nat → DispatchWorker := fun _ => {}
  /-- The keys of `session_contexts_`. -/
  contexts : List Key := []
  /-- All sessions registered by `start_session`, each with its worker. -/
  created : List (Key × Nat) := []
  /-- The sessions whose teardown hooks ran, each with the worker that ran them. -/
  destroyed : List (Key × Nat) := []

/-- One step of one thread. -/
inductive ServerAction where
  | acceptTest
  /-- `accept` gives a connection, for which an id is generated, or times out. -/
  | accept (connection : Option Key)
  /-- The end of `start_session`. -/
  | push
  | worker (i : Nat) (a : DispatchWorker.Action)
  /-- `stop` clears `running_`. -/
  | stop

namespace ServerThreads

/-- Worker `i` is `w` from now on. -/
def setWorker (s : ServerThreads) (i : Nat) (w : DispatchWorker) : ServerThreads :=
  { s with workers := fun j => if j = i then w else s.workers j }

/-- What a worker's step does to the tables of the server. -/
def apply (s : ServerThreads) (i : Nat) : WorkerEffect → ServerThreads
  | .none => s
  | .hooks id => { s with destroyed := s.destroyed ++ [(id, i)] }
  | .unregister id => { s with contexts := s.contexts.erase id }

/-- One action, of a server with `n` workers. -/
def step (n : Nat) (s : ServerThreads) : ServerAction → Option ServerThreads
  | .acceptTest =>
    match s.accept with
    | .testing => some { s with accept := if s.running then .accepting else .exited }
    | _ => none
  | .accept connection =>
    match s.accept with
    | .accepting =>
      match connection with
      | none => some { s with accept := .testing }
      | some id =>
        if id ∈ s.created.map Prod.fst then none
        else some { s with
          contexts := s.contexts ++ [id]
          created := s.created ++ [(id, s.nextWorker)]
          accept := .starting id s.nextWorker }
    | _ => none
  | .push =>
    match s.accept with
    | .starting id i =>
      let w := s.workers i
      some { s.setWorker i { w with sessions := w.sessions ++ [id] } with
        nextWorker := (s.nextWorker + 1) % n
        accept := .testing }
    | _ => none
  | .worker i a =>
    if i < n then
      match (s.workers i).step s.running a with
      | some (w, effect) => some ((s.setWorker i w).apply i effect)
      | none => none
    else none
  | .stop => some { s with running := false }

/-- `stop` has joined the accept thread and the workers. -/
def Returned (n : Nat) (s : ServerThreads) : Prop :=
  s.running = false ∧ s.accept = .exited ∧ ∀ i < n, (s.workers i).position = .exited

/-- The session the accept thread is about to push. -/
def starting (s : ServerThreads) : List (Key × Nat) :=
  match s.accept with
  | .starting id i => [(id, i)]
  | _ => []

/-- A session is not pushed to a worker that has swept its list. -/
def InTime (s : ServerThreads) : ServerAction → Prop
  | .push => ∀ id i, s.accept = .starting id i → ¬ (s.workers i).Swept
  | _ => True

end ServerThreads

/-! ## Workers -/

namespace DispatchWorker

/-- The steps of a worker, one constructor for each. -/
inductive Steps (running : Bool) : DispatchWorker → DispatchWorker → WorkerEffect → Prop where
  | test (l : List Key) :
    Steps running ⟨l, .testing⟩ ⟨l, if running then .snapshotting else .leaving⟩ .none
  | snapshot (l : List Key) : Steps running ⟨l, .snapshotting⟩ ⟨l, .lap l []⟩ .none
  | visit (l : List Key) (id : Key) (rest found : List Key) :
    Steps running ⟨l, .lap (id :: rest) found⟩ ⟨l, .lap rest found⟩ .none
  | visitClosed (l : List Key) (id : Key) (rest found : List Key) :
    Steps running ⟨l, .lap (id :: rest) found⟩ ⟨l, .lap rest (found ++ [id])⟩ .none
  | interrupt (l current found : List Key) :
    Steps running ⟨l, .lap current found⟩ ⟨l, .lap [] found⟩ .none
  | endLap (l : List Key) : Steps running ⟨l, .lap [] []⟩ ⟨l, .testing⟩ .none
  | close (l found : List Key) :
    Steps running ⟨l, .lap [] found⟩ ⟨l, .closing [] none found⟩ .none
  | hooks (l done : List Key) (id : Key) (todo : List Key) :
    Steps running ⟨l, .closing done none (id :: todo)⟩ ⟨l, .closing done (some id) todo⟩
      (.hooks id)
  | sweepHooks (l : List Key) (id : Key) (remaining : List Key) :
    Steps running ⟨l, .sweeping none (id :: remaining)⟩ ⟨l, .sweeping (some id) remaining⟩
      (.hooks id)
  | unregister (l done : List Key) (id : Key) (todo : List Key) :
    Steps running ⟨l, .closing done (some id) todo⟩ ⟨l, .closing (done ++ [id]) none todo⟩
      (.unregister id)
  | sweepUnregister (l : List Key) (id : Key) (remaining : List Key) :
    Steps running ⟨l, .sweeping (some id) remaining⟩ ⟨l, .sweeping none remaining⟩
      (.unregister id)
  | erase (l done : List Key) :
    Steps running ⟨l, .closing done none []⟩ ⟨l.filter fun id => id ∉ done, .testing⟩ .none
  | sweep (l : List Key) : Steps running ⟨l, .leaving⟩ ⟨[], .sweeping none l⟩ .none
  | exit (l : List Key) : Steps running ⟨l, .sweeping none []⟩ ⟨l, .exited⟩ .none

variable {running : Bool} {w w' : DispatchWorker} {a : Action} {effect : WorkerEffect}

theorem steps_of_step (h : w.step running a = some (w', effect)) : Steps running w w' effect := by
  obtain ⟨l, position⟩ := w
  unfold step at h
  split at h
  case h_1 heq =>
    cases heq
    cases h
    exact .test l
  case h_2 heq =>
    cases heq
    cases h
    exact .snapshot l
  case h_3 heq =>
    cases heq
    split at h
    · cases h
      split
      · exact .visitClosed l _ _ _
      · exact .visit l _ _ _
    · cases h
      exact .interrupt l _ _
  case h_4 heq =>
    cases heq
    cases h
    exact .endLap l
  case h_5 _ heq =>
    cases heq
    cases h
    exact .close l _
  case h_6 heq =>
    cases heq
    cases h
    exact .hooks l _ _ _
  case h_7 heq =>
    cases heq
    cases h
    exact .sweepHooks l _ _
  case h_8 heq =>
    cases heq
    cases h
    exact .unregister l _ _ _
  case h_9 heq =>
    cases heq
    cases h
    exact .sweepUnregister l _ _
  case h_10 heq =>
    cases heq
    cases h
    exact .erase l _
  case h_11 heq =>
    cases heq
    cases h
    exact .sweep l
  case h_12 heq =>
    cases heq
    cases h
    exact .exit l
  case h_13 => cases h

/-- The hooks a step runs are those of a session it had, which is then one of those done. -/
theorem Steps.due (h : Steps running w w' effect) (hw : w.Distinct) (id : Key) :
    w'.due.count id + w.extra.count id + effect.destroys.count id =
      w.due.count id + w'.extra.count id := by
  cases h with
  | erase l done =>
    -- what is done was in the list, once
    have hsub : done ⊆ l := fun a ha => hw.subset (by simpa [picked] using ha)
    have hdone : done.Nodup := by simpa [picked] using hw.picked
    have hl : l.Nodup := hw.sessions
    simp only [DispatchWorker.due, extra, WorkerEffect.destroys, Option.toList_none,
      List.append_nil, List.count_nil, Nat.add_zero]
    by_cases hid : id ∈ done
    · rw [List.count_eq_one_of_mem hdone hid, List.count_eq_one_of_mem hl (hsub hid),
        List.count_eq_zero_of_not_mem (by simp [hid])]
    · rw [List.count_eq_zero_of_not_mem hid, List.count_filter (by simpa using hid),
        Nat.add_zero]
  | test l =>
    cases running <;> rfl
  | interrupt l current found => rfl
  | snapshot l => rfl
  | visit l id' rest found => rfl
  | visitClosed l id' rest found => rfl
  | endLap l => rfl
  | close l found => rfl
  | exit l => simp [DispatchWorker.due, extra, WorkerEffect.destroys]
  | sweep l => simp [DispatchWorker.due, extra, WorkerEffect.destroys]
  | hooks l done id' todo =>
    simp only [DispatchWorker.due, extra, WorkerEffect.destroys, Option.toList_none,
      Option.toList_some, List.append_nil, List.count_append]
    omega
  | sweepHooks l id' remaining =>
    simp only [DispatchWorker.due, extra, WorkerEffect.destroys, List.count_append,
      List.count_cons, List.count_nil]
    omega
  | unregister l done id' todo =>
    simp only [DispatchWorker.due, extra, WorkerEffect.destroys, Option.toList_none,
      Option.toList_some, List.append_nil, List.count_append, List.count_nil, Nat.add_zero]
  | sweepUnregister l id' remaining => rfl

/-- A session is hooked from the run of its hooks to its removal from the table. -/
theorem Steps.hooked (h : Steps running w w' effect) :
    (∀ id, effect = .hooks id → w.hooked = [] ∧ w'.hooked = [id]) ∧
      (∀ id, effect = .unregister id → w.hooked = [id] ∧ w'.hooked = []) ∧
      (effect = .none → w.hooked = [] ∧ w'.hooked = []) := by
  cases h with
  | test l =>
    refine ⟨nofun, nofun, fun _ => ⟨rfl, ?_⟩⟩
    cases running <;> rfl
  | hooks l done id todo | sweepHooks l id remaining =>
    refine ⟨?_, nofun, nofun⟩
    rintro id' ⟨⟩
    exact ⟨rfl, rfl⟩
  | unregister l done id todo | sweepUnregister l id remaining =>
    refine ⟨nofun, ?_, nofun⟩
    rintro id' ⟨⟩
    exact ⟨rfl, rfl⟩
  | interrupt | snapshot | visit | visitClosed | endLap | close | exit | sweep | erase =>
    exact ⟨nofun, nofun, fun _ => ⟨rfl, rfl⟩⟩

theorem Steps.distinct (h : Steps running w w' effect) (hw : w.Distinct) : w'.Distinct := by
  have hsessions := hw.sessions
  have hpicked := hw.picked
  have hsubset := hw.subset
  cases h with
  | test l => exact ⟨hsessions, by cases running <;> exact List.nodup_nil, by
      cases running <;> exact List.nil_subset _⟩
  | snapshot l => exact ⟨hsessions, hsessions, fun a ha => ha⟩
  | visit l id rest found =>
    simp only [picked] at hpicked hsubset
    refine ⟨hsessions, hpicked.sublist ?_, fun a ha => hsubset ?_⟩
    · exact List.Sublist.append_left (List.sublist_cons_self id rest) found
    · rcases List.mem_append.1 ha with ha | ha
      · exact List.mem_append_left _ ha
      · exact List.mem_append_right _ (List.mem_cons_of_mem _ ha)
  | visitClosed l id rest found =>
    simp only [picked] at hpicked hsubset
    exact ⟨hsessions, by simpa [picked] using hpicked, by simpa [picked] using hsubset⟩
  | interrupt l current found =>
    simp only [picked] at hpicked hsubset
    refine ⟨hsessions, ?_, ?_⟩
    · simpa [picked] using hpicked.of_append_left
    · intro a ha
      exact hsubset (List.mem_append_left _ (by simpa [picked] using ha))
  | endLap l => exact ⟨hsessions, List.nodup_nil, List.nil_subset _⟩
  | close l found =>
    exact ⟨hsessions, by simpa [picked] using hpicked, by simpa [picked] using hsubset⟩
  | hooks l done id todo | unregister l done id todo =>
    exact ⟨hsessions, by simpa [picked] using hpicked, by simpa [picked] using hsubset⟩
  | sweepHooks | sweepUnregister | exit => exact ⟨hsessions, List.nodup_nil, List.nil_subset _⟩
  | erase l done => exact ⟨hsessions.filter _, List.nodup_nil, List.nil_subset _⟩
  | sweep l => exact ⟨List.nodup_nil, List.nodup_nil, List.nil_subset _⟩

/-- Only hooks that run make a session hooked. -/
theorem Steps.hooked_le (h : Steps running w w' effect) (id : Key) :
    w'.hooked.count id ≤ w.hooked.count id + effect.destroys.count id := by
  obtain ⟨hhooks, hunregister, hnone⟩ := h.hooked
  cases effect with
  | none =>
    rw [(hnone rfl).2]
    exact Nat.zero_le _
  | hooks id' =>
    rw [(hhooks id' rfl).2]
    exact Nat.le_add_left _ _
  | unregister id' =>
    rw [(hunregister id' rfl).2]
    exact Nat.zero_le _

/-- Only hooks that run make a session one of those done. -/
theorem Steps.extra_le (h : Steps running w w' effect) (id : Key) :
    w'.extra.count id ≤ w.extra.count id + effect.destroys.count id := by
  cases h with
  | test l => cases running <;> exact Nat.zero_le _
  | hooks l done id' todo =>
    simp [extra, WorkerEffect.destroys, List.count_append]
  | unregister l done id' todo =>
    simp [extra, WorkerEffect.destroys, List.count_append]
  | _ => simp [extra, WorkerEffect.destroys]

/-- What is done is still due, once. -/
theorem Distinct.extra_le_due (hw : w.Distinct) (id : Key) :
    w.extra.count id ≤ w.due.count id := by
  obtain ⟨l, position⟩ := w
  cases position with
  | closing done hooked todo =>
    have hextra : (done ++ hooked.toList).Nodup := hw.picked.of_append_left
    show (done ++ hooked.toList).count id ≤ l.count id
    by_cases hid : id ∈ done ++ hooked.toList
    · rw [List.count_eq_one_of_mem hextra hid]
      exact List.one_le_count_iff.2 (hw.subset (List.mem_append_left _ hid))
    · rw [List.count_eq_zero_of_not_mem hid]
      exact Nat.zero_le _
  | _ => exact Nat.zero_le _

/-- The list of a worker that swept it stays empty. -/
theorem Steps.swept (h : Steps running w w' effect) (hw : w.Swept → w.sessions = []) :
    w'.Swept → w'.sessions = [] := by
  cases h with
  | test l => cases running <;> exact False.elim
  | sweep l => exact fun _ => rfl
  | sweepHooks | sweepUnregister | exit => exact fun _ => hw trivial
  | _ => exact False.elim

end DispatchWorker

/-! ## The server -/

namespace ServerThreads

variable {n : Nat} {s s' : ServerThreads}

/-- Every session is where the steps it went through put it. `balance`: a session that was
created is about to be pushed, due at its worker, or destroyed; one whose hooks ran and which is
still in a list counts twice. -/
structure Accounted (n : Nat) (s : ServerThreads) : Prop where
  distinct : (s.created.map Prod.fst).Nodup
  workers : ∀ i, (s.workers i).Distinct
  balance : ∀ id i, s.created.count (id, i) + (s.workers i).extra.count id =
    s.starting.count (id, i) + (s.workers i).due.count id + s.destroyed.count (id, i)
  done : ∀ id i, (s.workers i).extra.count id ≤ s.destroyed.count (id, i)
  hooked : ∀ id i, (s.workers i).hooked.count id ≤ s.destroyed.count (id, i)
  registered : ∀ id i, (id, i) ∈ s.created →
    s.contexts.count id + s.destroyed.count (id, i) = 1 + (s.workers i).hooked.count id
  contexts : s.contexts ⊆ s.created.map Prod.fst
  within : ∀ p ∈ s.created, p.2 < n
  next : s.nextWorker < n

theorem Accounted.created_le (h : s.Accounted n) (id : Key) (i : Nat) :
    s.created.count (id, i) ≤ 1 :=
  List.nodup_iff_count_le_one.1 (List.Nodup.of_map _ h.distinct) _

/-- The hooks of a session run at its own worker, and once. -/
theorem Accounted.destroyed_le (h : s.Accounted n) (id : Key) (i : Nat) :
    s.destroyed.count (id, i) ≤ s.created.count (id, i) := by
  have hbalance := h.balance id i
  have hdue := (h.workers i).extra_le_due id
  omega

/-- A session has one worker. -/
theorem Accounted.same_worker (h : s.Accounted n) {id : Key} {i j : Nat}
    (hi : (id, i) ∈ s.created) (hj : (id, j) ∈ s.created) : i = j :=
  congrArg Prod.snd (List.inj_on_of_nodup_map h.distinct hi hj rfl)

theorem setWorker_self (s : ServerThreads) (i : Nat) (w : DispatchWorker) :
    (s.setWorker i w).workers i = w := if_pos rfl

theorem setWorker_other (s : ServerThreads) {i j : Nat} (w : DispatchWorker) (h : j ≠ i) :
    (s.setWorker i w).workers j = s.workers j := if_neg h

@[simp] theorem apply_workers (s : ServerThreads) (i : Nat) (effect : WorkerEffect) :
    (s.apply i effect).workers = s.workers := by
  cases effect <;> rfl

@[simp] theorem apply_created (s : ServerThreads) (i : Nat) (effect : WorkerEffect) :
    (s.apply i effect).created = s.created := by
  cases effect <;> rfl

@[simp] theorem apply_accept (s : ServerThreads) (i : Nat) (effect : WorkerEffect) :
    (s.apply i effect).accept = s.accept := by
  cases effect <;> rfl

@[simp] theorem apply_nextWorker (s : ServerThreads) (i : Nat) (effect : WorkerEffect) :
    (s.apply i effect).nextWorker = s.nextWorker := by
  cases effect <;> rfl

theorem apply_destroyed (s : ServerThreads) (i : Nat) (effect : WorkerEffect) (id : Key) (j : Nat) :
    (s.apply i effect).destroyed.count (id, j) =
      s.destroyed.count (id, j) + if j = i then effect.destroys.count id else 0 := by
  cases effect with
  | none => simp [apply, WorkerEffect.destroys]
  | unregister id' => simp [apply, WorkerEffect.destroys]
  | hooks id' =>
    simp only [apply, WorkerEffect.destroys, List.count_append, List.count_cons, List.count_nil,
      Nat.zero_add, Nat.add_right_inj]
    by_cases hj : j = i
    · subst hj
      by_cases hid : id' = id <;> simp [hid]
    · have hne : (id', i) ≠ (id, j) := fun heq => hj (congrArg Prod.snd heq).symm
      simp [hj, hne]

/-- What a worker's step does to a registered session. -/
theorem Accounted.registered_worker (h : s.Accounted n) {i : Nat} {w : DispatchWorker}
    {effect : WorkerEffect} (hw : DispatchWorker.Steps s.running (s.workers i) w effect)
    {s' : ServerThreads} {id : Key} {j : Nat} (hj : (id, j) ∈ s.created)
    (hself : s'.workers i = w) (hother : ∀ {j}, j ≠ i → s'.workers j = s.workers j) :
    ((s.setWorker i w).apply i effect).contexts.count id +
        (s.destroyed.count (id, j) + if j = i then effect.destroys.count id else 0) =
      1 + (s'.workers j).hooked.count id := by
  have hregistered := h.registered id j hj
  obtain ⟨hhooks, hunregister, hnone⟩ := hw.hooked
  have hworker : ∀ hooked hooked', (s.workers i).hooked = hooked → w.hooked = hooked' →
      (s'.workers j).hooked = if j = i then hooked' else (s.workers j).hooked := by
    intro hooked hooked' _ h'
    by_cases hij : j = i
    · subst hij
      rw [hself, if_pos rfl, h']
    · rw [hother hij, if_neg hij]
  cases effect with
  | none =>
    obtain ⟨hbefore, hafter⟩ := hnone rfl
    rw [hworker _ _ hbefore hafter]
    show s.contexts.count id + _ = _
    by_cases hij : j = i
    · subst hij
      rw [hbefore] at hregistered
      simpa [WorkerEffect.destroys] using hregistered
    · simpa [hij] using hregistered
  | hooks id' =>
    obtain ⟨hbefore, hafter⟩ := hhooks id' rfl
    rw [hworker _ _ hbefore hafter]
    show s.contexts.count id + (_ + if j = i then [id'].count id else 0) = _
    by_cases hij : j = i
    · subst hij
      rw [hbefore, List.count_nil] at hregistered
      rw [if_pos rfl, if_pos rfl]
      omega
    · rw [if_neg hij, if_neg hij]
      exact hregistered
  | unregister id' =>
    obtain ⟨hbefore, hafter⟩ := hunregister id' rfl
    rw [hworker _ _ hbefore hafter]
    show (s.contexts.erase id').count id + (_ + if j = i then [].count id else 0) = _
    have hzero : (if j = i then ([] : List Key).count id else 0) = 0 := by
      split <;> rfl
    rw [hzero]
    by_cases hid : id = id'
    · -- it is the session of this worker
      subst hid
      have hdestroyed : 1 ≤ s.destroyed.count (id, i) := by
        have hhooked := h.hooked id i
        rwa [hbefore, List.count_singleton_self] at hhooked
      have hcreated : (id, i) ∈ s.created :=
        List.one_le_count_iff.1 (hdestroyed.trans (h.destroyed_le id i))
      obtain rfl := h.same_worker hj hcreated
      have hle := (h.destroyed_le id j).trans (h.created_le id j)
      rw [hbefore, List.count_singleton_self] at hregistered
      rw [if_pos rfl, List.count_nil, List.count_erase_self]
      omega
    · rw [List.count_erase_of_ne hid]
      by_cases hij : j = i
      · subst hij
        have hzero' : [id'].count id = 0 := List.count_eq_zero_of_not_mem (by simpa using hid)
        rw [hbefore, hzero'] at hregistered
        simpa using hregistered
      · rw [if_neg hij]
        exact hregistered

/-- A worker's step. -/
theorem Accounted.worker (h : s.Accounted n) {i : Nat} {w : DispatchWorker}
    {effect : WorkerEffect} (hw : DispatchWorker.Steps s.running (s.workers i) w effect) :
    ((s.setWorker i w).apply i effect).Accounted n := by
  have hother : ∀ {j}, j ≠ i → ((s.setWorker i w).apply i effect).workers j = s.workers j := by
    intro j hj
    rw [apply_workers, setWorker_other s w hj]
  have hself : ((s.setWorker i w).apply i effect).workers i = w := by
    rw [apply_workers, setWorker_self]
  have hdestroyed : ∀ id j, ((s.setWorker i w).apply i effect).destroyed.count (id, j) =
      s.destroyed.count (id, j) + if j = i then effect.destroys.count id else 0 :=
    apply_destroyed (s.setWorker i w) i effect
  have hstarting : ((s.setWorker i w).apply i effect).starting = s.starting := by
    unfold starting
    rw [apply_accept]
    rfl
  refine
    { distinct := by rw [apply_created]; exact h.distinct
      workers := fun j => ?_
      balance := fun id j => ?_
      done := fun id j => ?_
      hooked := fun id j => ?_
      registered := fun id j hj => ?_
      contexts := ?_
      within := by rw [apply_created]; exact h.within
      next := by rw [apply_nextWorker]; exact h.next }
  · by_cases hj : j = i
    · subst hj
      rw [hself]
      exact hw.distinct (h.workers j)
    · rw [hother hj]
      exact h.workers j
  · have hbalance := h.balance id j
    rw [apply_created, hstarting, hdestroyed]
    show s.created.count (id, j) + _ = _
    by_cases hj : j = i
    · subst hj
      have hdue := hw.due (h.workers j) id
      rw [hself, if_pos rfl]
      omega
    · rw [hother hj, if_neg hj]
      exact hbalance
  · have hdone := h.done id j
    rw [hdestroyed]
    by_cases hj : j = i
    · subst hj
      have hextra := hw.extra_le id
      rw [hself, if_pos rfl]
      omega
    · rw [hother hj, if_neg hj]
      exact hdone
  · have hhooked := h.hooked id j
    rw [hdestroyed]
    by_cases hj : j = i
    · subst hj
      have hle := hw.hooked_le id
      rw [hself, if_pos rfl]
      omega
    · rw [hother hj, if_neg hj]
      exact hhooked
  · rw [apply_created] at hj
    rw [hdestroyed]
    exact h.registered_worker hw hj hself hother
  · rw [apply_created]
    cases effect with
    | none => exact h.contexts
    | hooks id => exact h.contexts
    | unregister id => exact fun a ha => h.contexts (List.mem_of_mem_erase ha)

/-- The accept thread registers a new session. -/
theorem Accounted.create (h : s.Accounted n) (haccept : s.accept = .accepting) {id : Key}
    (hid : id ∉ s.created.map Prod.fst) :
    ({ s with
        contexts := s.contexts ++ [id]
        created := s.created ++ [(id, s.nextWorker)]
        accept := .starting id s.nextWorker } : ServerThreads).Accounted n := by
  have hnone : ∀ i, (id, i) ∉ s.created := fun i hi => hid (List.mem_map_of_mem hi)
  have hdestroyed : ∀ i, s.destroyed.count (id, i) = 0 := by
    intro i
    have hle := h.destroyed_le id i
    rw [List.count_eq_zero_of_not_mem (hnone i)] at hle
    exact Nat.le_zero.1 hle
  refine
    { distinct := ?_
      workers := h.workers
      balance := fun id' i => ?_
      done := h.done
      hooked := h.hooked
      registered := fun id' i hi => ?_
      contexts := ?_
      within := fun p hp => ?_
      next := h.next }
  · rw [List.map_append]
    refine List.nodup_append.2 ⟨h.distinct, List.nodup_singleton _, ?_⟩
    rintro a ha b hb rfl
    obtain rfl := List.mem_singleton.1 hb
    exact hid ha
  · have hbalance := h.balance id' i
    have hstarting : s.starting = [] := by rw [starting, haccept]
    rw [hstarting, List.count_nil] at hbalance
    simp only [starting, List.count_append]
    omega
  · simp only [List.count_append]
    rcases List.mem_append.1 hi with hi | hi
    · -- an earlier session
      have hne : id' ≠ id := fun heq => hnone i (heq ▸ hi)
      have hzero : [id].count id' = 0 := List.count_eq_zero_of_not_mem (by simpa using hne)
      have hregistered := h.registered id' i hi
      omega
    · obtain ⟨rfl, rfl⟩ := Prod.mk.inj (List.mem_singleton.1 hi)
      have hhooked := h.hooked id' s.nextWorker
      have hcontexts : s.contexts.count id' = 0 :=
        List.count_eq_zero_of_not_mem fun ha => hid (h.contexts ha)
      rw [hdestroyed] at hhooked ⊢
      rw [hcontexts, List.count_eq_one_of_mem (List.nodup_singleton _) (List.mem_singleton_self _)]
      omega
  · rw [List.map_append]
    intro a ha
    rcases List.mem_append.1 ha with ha | ha
    · exact List.mem_append_left _ (h.contexts ha)
    · exact List.mem_append_right _ ha
  · rcases List.mem_append.1 hp with hp | hp
    · exact h.within p hp
    · rw [List.mem_singleton.1 hp]
      exact h.next

/-- It pushes the session to the list of its worker. -/
theorem Accounted.push (h : s.Accounted n) {id : Key} {i : Nat}
    (haccept : s.accept = .starting id i) :
    ({ s.setWorker i
        { s.workers i with sessions := (s.workers i).sessions ++ [id] } with
        nextWorker := (s.nextWorker + 1) % n
        accept := .testing } : ServerThreads).Accounted n := by
  have hstarting : s.starting = [(id, i)] := by rw [starting, haccept]
  -- the session is nowhere else
  have hdue : (s.workers i).due.count id = 0 := by
    have hbalance := h.balance id i
    have hcreated := h.created_le id i
    have hdone := h.done id i
    rw [hstarting, List.count_singleton_self] at hbalance
    omega
  have hnot : id ∉ (s.workers i).sessions := by
    intro hid
    have hsub : (s.workers i).sessions ⊆ (s.workers i).due := by
      unfold DispatchWorker.due
      split
      · exact List.subset_append_left _ _
      · exact fun a ha => ha
    exact List.count_eq_zero.1 hdue (hsub hid)
  obtain ⟨w, hw⟩ : ∃ w, w = { s.workers i with sessions := (s.workers i).sessions ++ [id] } :=
    ⟨_, rfl⟩
  have hpushed : w.extra = (s.workers i).extra ∧ w.hooked = (s.workers i).hooked ∧
      w.picked = (s.workers i).picked ∧
      ∀ a, w.due.count a = (s.workers i).due.count a + [id].count a := by
    subst hw
    obtain ⟨l, position⟩ := s.workers i
    refine ⟨rfl, rfl, rfl, fun a => ?_⟩
    cases position <;> simp only [DispatchWorker.due, List.count_append]
    omega
  obtain ⟨hextra, hhooked, hpicked, hdue'⟩ := hpushed
  rw [← hw]
  refine
    { distinct := h.distinct
      workers := fun j => ?_
      balance := fun id' j => ?_
      done := fun id' j => ?_
      hooked := fun id' j => ?_
      registered := fun id' j hj => ?_
      contexts := h.contexts
      within := h.within
      next := Nat.mod_lt _ (Nat.zero_lt_of_lt h.next) }
  · by_cases hj : j = i
    · subst hj
      show ((s.setWorker j w).workers j).Distinct
      rw [setWorker_self]
      refine ⟨?_, by rw [hpicked]; exact (h.workers j).picked, ?_⟩
      · rw [hw]
        refine List.nodup_append.2 ⟨(h.workers j).sessions, List.nodup_singleton _, ?_⟩
        rintro a ha b hb rfl
        exact hnot (List.mem_singleton.1 hb ▸ ha)
      · rw [hpicked, hw]
        exact fun a ha => List.mem_append_left _ ((h.workers j).subset ha)
    · show ((s.setWorker i w).workers j).Distinct
      rw [setWorker_other s w hj]
      exact h.workers j
  · have hbalance := h.balance id' j
    rw [hstarting] at hbalance
    show s.created.count (id', j) + ((s.setWorker i w).workers j).extra.count id' =
      0 + ((s.setWorker i w).workers j).due.count id' + s.destroyed.count (id', j)
    by_cases hj : j = i
    · subst hj
      have hcount : [(id, j)].count (id', j) = [id].count id' := by
        by_cases hid : id = id' <;> simp [hid]
      rw [setWorker_self, hextra, hdue']
      omega
    · have hcount : [(id, i)].count (id', j) = 0 := by
        simp [Ne.symm hj]
      rw [setWorker_other s w hj]
      omega
  · show ((s.setWorker i w).workers j).extra.count id' ≤ s.destroyed.count (id', j)
    by_cases hj : j = i
    · subst hj
      rw [setWorker_self, hextra]
      exact h.done id' j
    · rw [setWorker_other s w hj]
      exact h.done id' j
  · show ((s.setWorker i w).workers j).hooked.count id' ≤ s.destroyed.count (id', j)
    by_cases hj : j = i
    · subst hj
      rw [setWorker_self, hhooked]
      exact h.hooked id' j
    · rw [setWorker_other s w hj]
      exact h.hooked id' j
  · show s.contexts.count id' + s.destroyed.count (id', j) =
      1 + ((s.setWorker i w).workers j).hooked.count id'
    by_cases hi : j = i
    · subst hi
      rw [setWorker_self, hhooked]
      exact h.registered id' j hj
    · rw [setWorker_other s w hi]
      exact h.registered id' j hj

/-- **One step** of any thread keeps the account. -/
theorem Accounted.step (h : s.Accounted n) {a : ServerAction}
    (hstep : ServerThreads.step n s a = some s') : s'.Accounted n := by
  cases a with
  | acceptTest =>
    cases haccept : s.accept <;> simp only [ServerThreads.step, haccept, reduceCtorEq] at hstep
    cases hstep
    refine ⟨h.distinct, h.workers, fun id i => ?_, h.done, h.hooked, h.registered, h.contexts,
      h.within, h.next⟩
    have hbalance := h.balance id i
    simp only [starting, haccept] at hbalance
    cases hrunning : s.running <;> simpa [starting, hrunning] using hbalance
  | accept connection =>
    cases haccept : s.accept <;> simp only [ServerThreads.step, haccept, reduceCtorEq] at hstep
    cases connection with
    | none =>
      cases hstep
      refine ⟨h.distinct, h.workers, fun id i => ?_, h.done, h.hooked, h.registered, h.contexts,
        h.within, h.next⟩
      have hbalance := h.balance id i
      simpa only [starting, haccept] using hbalance
    | some id =>
      simp only at hstep
      split at hstep
      · cases hstep
      · next hid =>
        cases hstep
        exact h.create haccept hid
  | push =>
    cases haccept : s.accept <;> simp only [ServerThreads.step, haccept, reduceCtorEq] at hstep
    cases hstep
    exact h.push haccept
  | worker i a =>
    simp only [ServerThreads.step] at hstep
    split at hstep
    · split at hstep
      · next w effect hw =>
        cases hstep
        exact h.worker (DispatchWorker.steps_of_step hw)
      · cases hstep
    · cases hstep
  | stop =>
    cases hstep
    exact ⟨h.distinct, h.workers, h.balance, h.done, h.hooked, h.registered, h.contexts,
      h.within, h.next⟩

theorem accounted_listening (hn : 0 < n) : ({} : ServerThreads).Accounted n where
  distinct := List.nodup_nil
  workers := fun _ => ⟨List.nodup_nil, List.nodup_nil, List.nil_subset _⟩
  balance := fun _ _ => rfl
  done := fun _ _ => Nat.le_refl _
  hooked := fun _ _ => Nat.le_refl _
  registered := nofun
  contexts := List.nil_subset _
  within := nofun
  next := hn

/-- A worker that swept its list has an empty one. -/
def Emptied (s : ServerThreads) : Prop :=
  ∀ i, (s.workers i).Swept → (s.workers i).sessions = []

theorem Emptied.step (h : s.Emptied) {a : ServerAction} (hintime : s.InTime a)
    (hstep : ServerThreads.step n s a = some s') : s'.Emptied := by
  cases a with
  | acceptTest =>
    cases haccept : s.accept <;> simp only [ServerThreads.step, haccept, reduceCtorEq] at hstep
    cases hstep
    exact h
  | accept connection =>
    cases haccept : s.accept <;> simp only [ServerThreads.step, haccept, reduceCtorEq] at hstep
    cases connection with
    | none =>
      cases hstep
      exact h
    | some id =>
      simp only at hstep
      split at hstep <;> cases hstep
      exact h
  | push =>
    cases haccept : s.accept <;> simp only [ServerThreads.step, haccept, reduceCtorEq] at hstep
    next id i =>
      cases hstep
      intro j hj
      by_cases hji : j = i
      · subst hji
        -- it would have come too late
        rw [show _ = _ from setWorker_self s j _] at hj
        exact absurd hj (hintime id j haccept)
      · rw [show _ = _ from setWorker_other s _ hji] at hj ⊢
        exact h j hj
  | worker i a =>
    simp only [ServerThreads.step] at hstep
    split at hstep
    · split at hstep
      · next w effect hw =>
        cases hstep
        intro j
        rw [apply_workers]
        by_cases hji : j = i
        · subst hji
          rw [setWorker_self]
          exact (DispatchWorker.steps_of_step hw).swept (h j)
        · rw [setWorker_other s w hji]
          exact h j
      · cases hstep
    · cases hstep
  | stop =>
    cases hstep
    exact h

end ServerThreads

open ServerThreads

/-- In any run, the hooks of a session run at most once, and only at a registered session. -/
theorem torn_down_once (n : Nat) (hn : 0 < n) (actions : List ServerAction) {s : ServerThreads}
    (h : Machine.run (ServerThreads.step n) {} actions = some s) :
    (s.destroyed.map Prod.fst).Nodup ∧
      ∀ id ∈ s.destroyed.map Prod.fst, id ∈ s.created.map Prod.fst := by
  have hacc : s.Accounted n :=
    Machine.run_invariant (fun _ _ _ hacc hstep => hacc.step hstep) (accounted_listening hn) h
  have hcreated : ∀ p ∈ s.destroyed, p ∈ s.created := fun p hp =>
    List.one_le_count_iff.1 ((List.one_le_count_iff.2 hp).trans (hacc.destroyed_le p.1 p.2))
  have honce : s.destroyed.Nodup := List.nodup_iff_count_le_one.2 fun p =>
    (hacc.destroyed_le p.1 p.2).trans (hacc.created_le p.1 p.2)
  refine ⟨honce.map_on fun p hp q hq heq => ?_, fun id hid => ?_⟩
  · exact List.inj_on_of_nodup_map hacc.distinct (hcreated p hp) (hcreated q hq) heq
  · obtain ⟨p, hp, rfl⟩ := List.mem_map.1 hid
    exact List.mem_map_of_mem (hcreated p hp)

/-- **Main result.** In every run in which the accept thread pushes no session to a worker that
has swept its list: when `stop` has returned, the hooks of every registered session have run
exactly once, and none is registered any longer. -/
theorem sessions_torn_down (n : Nat) (hn : 0 < n) (actions : List ServerAction)
    {s : ServerThreads} (h : Machine.run (ServerThreads.step n) {} actions = some s)
    (hintime : Machine.Each (ServerThreads.step n) InTime {} actions) (hreturned : s.Returned n) :
    ∀ id ∈ s.created.map Prod.fst,
      (s.destroyed.map Prod.fst).count id = 1 ∧ id ∉ s.contexts := by
  have hacc : s.Accounted n :=
    Machine.run_invariant (fun _ _ _ hacc hstep => hacc.step hstep) (accounted_listening hn) h
  have hemptied : s.Emptied :=
    Machine.run_invariant_of_each (fun _ _ _ hemptied hin hstep => hemptied.step hin hstep)
      (fun _ _ => rfl) hintime h
  obtain ⟨-, haccept, hexited⟩ := hreturned
  intro id hid
  obtain ⟨⟨id', i⟩, hp, rfl⟩ := List.mem_map.1 hid
  have hposition := hexited i (hacc.within _ hp)
  have hlist := hemptied i (by unfold DispatchWorker.Swept; rw [hposition]; trivial)
  -- nothing of the worker is left
  have hdestroyed : s.destroyed.count (id', i) = 1 := by
    have hbalance := hacc.balance id' i
    have hcreated := hacc.created_le id' i
    have hone := List.one_le_count_iff.2 hp
    simp only [DispatchWorker.extra, DispatchWorker.due, starting, hposition, haccept, hlist,
      List.count_nil] at hbalance
    omega
  have hregistered := hacc.registered id' i hp
  simp only [DispatchWorker.hooked, hposition, List.count_nil, hdestroyed] at hregistered
  have hcontexts : s.contexts.count id' = 0 := by omega
  refine ⟨?_, List.count_eq_zero.1 hcontexts⟩
  have honce := (torn_down_once n hn actions h).1
  refine List.count_eq_one_of_mem honce (List.mem_map.2 ⟨(id', i), ?_, rfl⟩)
  exact List.one_le_count_iff.1 (Nat.le_of_eq hdestroyed.symm)

namespace ServerThreads

/-- One worker; the session is torn down by the shutdown sweep. -/
def oneSession : List ServerAction :=
  [.acceptTest, .accept (some 1), .push, .stop, .worker 0 .test, .worker 0 .sweep,
    .worker 0 .hooks, .worker 0 .unregister, .worker 0 .exit, .acceptTest]

/-- One worker; it has swept its list when the accept thread pushes the session. -/
def lateSession : List ServerAction :=
  [.acceptTest, .accept (some 1), .stop, .worker 0 .test, .worker 0 .sweep, .worker 0 .exit,
    .push, .acceptTest]

end ServerThreads

theorem sessions_torn_down_one :
    ∃ s, Machine.run (ServerThreads.step 1) {} oneSession = some s ∧
      (s.destroyed.map Prod.fst).count 1 = 1 ∧ 1 ∉ s.contexts := by
  have hrun : (Machine.run (ServerThreads.step 1) {} oneSession).map (fun s =>
      (s.running, s.accept, (s.workers 0).position, s.created)) =
      some (false, .exited, .exited, [(1, 0)]) := rfl
  obtain ⟨s, hs, hend⟩ := Option.map_eq_some_iff.1 hrun
  obtain ⟨hrunning, haccept, hposition, hcreated⟩ : s.running = false ∧ s.accept = .exited ∧
      (s.workers 0).position = .exited ∧ s.created = [(1, 0)] := by
    simpa only [Prod.mk.injEq] using hend
  have hintime : Machine.Each (ServerThreads.step 1) InTime {} oneSession := by
    iterate 2 refine (Machine.each_cons rfl).2 ⟨trivial, ?_⟩
    refine (Machine.each_cons rfl).2 ⟨?_, ?_⟩
    · rintro id i ⟨⟩
      decide
    · iterate 7 refine (Machine.each_cons rfl).2 ⟨trivial, ?_⟩
      exact trivial
  refine ⟨s, hs, sessions_torn_down 1 Nat.one_pos oneSession hs hintime
    ⟨hrunning, haccept, fun i hi => ?_⟩ 1 ?_⟩
  · rw [Nat.lt_one_iff.1 hi]
    exact hposition
  · rw [hcreated]
    exact List.mem_singleton_self _

/-- The late session is never torn down. -/
theorem late_session_not_torn_down :
    ¬ ∀ (n : Nat) (actions : List ServerAction) (s : ServerThreads), 0 < n →
      Machine.run (ServerThreads.step n) {} actions = some s → s.Returned n →
        ∀ id ∈ s.created.map Prod.fst,
          (s.destroyed.map Prod.fst).count id = 1 ∧ id ∉ s.contexts := by
  intro h
  have hrun : (Machine.run (ServerThreads.step 1) {} lateSession).map (fun s =>
      (s.running, s.accept, (s.workers 0).position, s.created, s.destroyed)) =
      some (false, .exited, .exited, [(1, 0)], []) := rfl
  obtain ⟨s, hs, hend⟩ := Option.map_eq_some_iff.1 hrun
  simp only [Prod.mk.injEq] at hend
  obtain ⟨hrunning, haccept, hposition, hcreated, hdestroyed⟩ := hend
  have hreturned : s.Returned 1 := by
    refine ⟨hrunning, haccept, fun i hi => ?_⟩
    rw [Nat.lt_one_iff.1 hi]
    exact hposition
  have hone := (h 1 lateSession s Nat.one_pos hs hreturned 1 (by simp [hcreated])).1
  rw [hdestroyed] at hone
  exact absurd hone (by decide)

end Bison
