import Bison.Lib.Monitor

/-!
# The worker of a standalone backend

`enqueue`, `worker_loop` and `stop_worker` of standalone.cpp: any number of threads call `enqueue`,
which looks at `running_` first and pushes its task later; one thread calls `stop_worker`.

- `StandaloneWorker.step`: one step of a caller, of the worker or of `stop_worker`.
- `InTime`: no task is pushed after the worker has found the queue empty and was told to stop.
- `inTime_fulfills`: **main result**, then no task is left when `stop_worker` has returned.
- `worker_awake`: the worker is never left blocked, since `stop_worker` clears `running_` with the
  lock held.
- `push_after_stop`: a caller that is late with its push leaves its task in the queue for ever.
-/

namespace Bison

open Monitor

variable {τ : Type}

/-- Where `standalone::worker_loop` is. -/
inductive WorkerLoop (τ : Type) where
  /-- At `queue_.wait`. -/
  | wait
  /-- At the lock under which it takes a task. -/
  | take
  | work (task : τ)
  /-- There was no task, and it looks at `running_`. -/
  | recheck
  | done

/-- `standalone::worker_loop`. The flag is `!running_`, which `stop_worker` sets under the lock. -/
def workerLoop : Consumer τ (WorkerLoop τ) where
  entry := .wait
  code
    | .wait => .wait .take
    | .take => .pop fun
      | some task => .work task
      | none => .recheck
    | .work task => .run task .wait
    | .recheck => .load fun stopped => if stopped then .done else .wait
    | .done => .exit
  locked := true

/-- The worker finds no task only after it was told to stop. -/
def workerLoop.outline : Outline (workerLoop (τ := τ)) where
  note
    | .wait | .work _ => .any
    | .take => .ready
    | .recheck | .done => .drained
  hand
    | .work task => [task]
    | _ => []
  entry := ⟨rfl, rfl⟩
  fits
    | .wait => ⟨rfl, rfl, le_max_right _ _⟩
    | .take => ⟨rfl, fun | some _ => rfl | none => rfl, Nat.le_refl _, fun _ => Nat.le_refl _⟩
    | .work _ => ⟨rfl, rfl, Nat.le_refl _⟩
    | .recheck => ⟨rfl, fun | true => rfl | false => rfl, rfl, le_max_left _ _⟩
    | .done => ⟨rfl, rfl⟩

/-- Where the call of `stop_worker` is. -/
inductive StopWorker where
  | idle
  /-- It has cleared `running_`. -/
  | cleared
  /-- It has notified the worker, and is at `worker_.join()`. -/
  | joining
  | returned
  deriving DecidableEq

/-- The callers are given by their tasks. `checked`: they have found `running_` set and have not
pushed yet. `failed`: their future holds the error. `enqueued`: every call of `enqueue`. -/
structure StandaloneWorker (τ : Type) where
  queue : State τ (WorkerLoop τ) := workerLoop.init
  checked : List τ := []
  failed : List τ := []
  enqueued : List τ := []
  stopper : StopWorker := .idle

inductive StandaloneAction (τ : Type) where
  /-- `enqueue` is called and looks at `running_`. -/
  | enqueue (task : τ)
  /-- It pushes the task. -/
  | push (task : τ)
  /-- It notifies the worker. -/
  | notify
  /-- The worker. -/
  | work
  /-- `stop_worker` clears `running_` under the lock, if it is set. -/
  | stopWorker
  | notifyAll
  | join

namespace StandaloneWorker

variable [DecidableEq τ]

/-- The queue and the worker make a step. -/
def onQueue (s : StandaloneWorker τ) (a : Action τ) : Option (StandaloneWorker τ) :=
  (Monitor.step workerLoop s.queue a).map fun queue => { s with queue := queue }

/-- One step. -/
def step (s : StandaloneWorker τ) : StandaloneAction τ → Option (StandaloneWorker τ)
  | .enqueue task =>
    if s.queue.stop then
      some { s with failed := s.failed ++ [task], enqueued := s.enqueued ++ [task] }
    else
      some { s with checked := s.checked ++ [task], enqueued := s.enqueued ++ [task] }
  | .push task =>
    if task ∈ s.checked then
      onQueue { s with checked := s.checked.erase task } (.push task)
    else none
  | .notify => s.onQueue .notify
  | .work => s.onQueue .consume
  | .stopWorker =>
    match s.stopper with
    | .idle => onQueue { s with stopper := .cleared } .store
    | .returned => some s
    | _ => none
  | .notifyAll =>
    if s.stopper = .cleared then onQueue { s with stopper := .joining } .wake else none
  | .join =>
    match s.stopper, s.queue.control with
    | .joining, .active .done => some { s with stopper := .returned }
    | _, _ => none

/-- What a step can be. -/
inductive StandaloneStep (s : StandaloneWorker τ) :
    StandaloneAction τ → StandaloneWorker τ → Prop where
  | fail {task : τ} (hstop : s.queue.stop = true) :
    StandaloneStep s (.enqueue task)
      { s with failed := s.failed ++ [task], enqueued := s.enqueued ++ [task] }
  | check {task : τ} (hstop : s.queue.stop = false) :
    StandaloneStep s (.enqueue task)
      { s with checked := s.checked ++ [task], enqueued := s.enqueued ++ [task] }
  | push {task : τ} {queue : State τ (WorkerLoop τ)} (htask : task ∈ s.checked)
    (hqueue : Step workerLoop s.queue (.push task) queue) :
    StandaloneStep s (.push task)
      { s with queue := queue, checked := s.checked.erase task }
  /-- The worker, a notify or the flag. -/
  | queue {a : StandaloneAction τ} {b : Action τ} {queue : State τ (WorkerLoop τ)}
    {stopper : StopWorker} (hpush : ∀ task, b ≠ .push task)
    (hqueue : Step workerLoop s.queue b queue)
    (hstopper : stopper = .returned → s.stopper = .returned) :
    StandaloneStep s a { s with queue := queue, stopper := stopper }
  /-- `stop_worker` was called before. -/
  | again (hreturned : s.stopper = .returned) : StandaloneStep s .stopWorker s
  | join (hdone : s.queue.control = .active .done) :
    StandaloneStep s .join { s with stopper := .returned }

omit [DecidableEq τ] in
/-- A step of the queue and the worker. -/
theorem onQueue_spec {s s' : StandaloneWorker τ} {a : Action τ} (h : s.onQueue a = some s') :
    ∃ queue, Step workerLoop s.queue a queue ∧ s' = { s with queue := queue } := by
  obtain ⟨queue, hqueue, rfl⟩ := Option.map_eq_some_iff.1 h
  exact ⟨queue, step_spec hqueue, rfl⟩

theorem standalone_spec {s s' : StandaloneWorker τ} {a : StandaloneAction τ}
    (h : s.step a = some s') : StandaloneStep s a s' := by
  cases a with
  | enqueue task =>
    simp only [step] at h
    split at h
    next hstop =>
      cases h
      exact .fail hstop
    next hstop =>
      cases h
      exact .check (Bool.not_eq_true _ ▸ hstop)
  | push task =>
    simp only [step] at h
    split at h
    next htask =>
      obtain ⟨queue, hqueue, rfl⟩ := onQueue_spec h
      exact .push htask hqueue
    · cases h
  | notify | work =>
    obtain ⟨queue, hqueue, rfl⟩ := onQueue_spec h
    exact .queue (by simp) hqueue id
  | stopWorker =>
    simp only [step] at h
    split at h
    · obtain ⟨queue, hqueue, rfl⟩ := onQueue_spec h
      exact .queue (by simp) hqueue StopWorker.noConfusion
    next hreturned =>
      cases h
      exact .again hreturned
    · cases h
  | notifyAll =>
    simp only [step] at h
    split at h
    · obtain ⟨queue, hqueue, rfl⟩ := onQueue_spec h
      exact .queue (by simp) hqueue StopWorker.noConfusion
    · cases h
  | join =>
    simp only [step] at h
    split at h
    next hjoining hdone =>
      cases h
      exact .join hdone
    · cases h

end StandaloneWorker

/-- The worker has found no task and was told to stop. -/
def WorkerLoop.Leaving : WorkerLoop τ → Prop
  | .recheck | .done => True
  | _ => False

instance : (pc : WorkerLoop τ) → Decidable pc.Leaving
  | .recheck | .done => .isTrue trivial
  | .wait | .take | .work _ => .isFalse id

/-- No task is pushed when the worker leaves. -/
def InTime (s : StandaloneWorker τ) : StandaloneAction τ → Prop
  | .push _ => ¬ s.queue.control.pc.Leaving
  | _ => True

instance (s : StandaloneWorker τ) (a : StandaloneAction τ) : Decidable (InTime s a) :=
  match a with
  | .push _ => inferInstanceAs (Decidable (¬ s.queue.control.pc.Leaving))
  | .enqueue _ | .notify | .work | .stopWorker | .notifyAll | .join => .isTrue trivial

/-- Nothing is left when `stop_worker` has returned: the queue is empty, and a call of `enqueue`
has had its task run, or has failed, or has not come to its push. -/
structure Fulfilled (s : StandaloneWorker τ) : Prop where
  queue : s.queue.queue = []
  tasks : s.enqueued.Perm (s.queue.ran ++ s.failed ++ s.checked)

namespace StandaloneWorker

variable {s s' : StandaloneWorker τ}

/-- What every step keeps. -/
structure Sound (s : StandaloneWorker τ) : Prop where
  outline : workerLoop.outline.Inv s.queue
  /-- The worker leaves an empty queue. -/
  left : s.queue.control.pc.Leaving → s.queue.queue = []
  tasks : s.enqueued.Perm (s.queue.pushed ++ s.failed ++ s.checked)
  joined : s.stopper = .returned → s.queue.control = .active .done

/-- The worker leaves an empty queue, if nobody pushes when it leaves. -/
theorem left_of_step {q q' : State τ (WorkerLoop τ)} {a : Action τ} (h : Step workerLoop q a q')
    (hq : q.control.pc.Leaving → q.queue = [])
    (hpush : ∀ task, a = .push task → ¬ q.control.pc.Leaving) :
    q'.control.pc.Leaving → q'.queue = [] := by
  intro hleaving
  cases h with
  | @load pc next hpc hop =>
    -- only the recheck reads the flag
    cases pc <;> cases hop
    refine hq ?_
    rw [hpc]
    trivial
  | @pass pc next hpc hop hready =>
    cases pc <;> cases hop
    exact hleaving.elim
  | @test pc next hpc hop hqueue hstop => exact hqueue
  | @block pc hpc =>
    refine hq ?_
    rw [hpc]
    exact hleaving
  | @popNone pc next hpc hop hqueue => exact hqueue
  | @popSome pc next task rest hpc hop hqueue =>
    cases pc <;> cases hop
    exact hleaving.elim
  | @run pc task next hpc hop =>
    cases pc <;> cases hop
    exact hleaving.elim
  | refuse hfull => exact hq hleaving
  | push hfree => exact absurd hleaving (hpush _ rfl)
  | store hfree => exact hq hleaving
  | notify hn | wake hn =>
    refine hq ?_
    rw [← Control.pc_notified]
    exact hleaving

theorem Sound.step [DecidableEq τ] (hs : s.Sound) {a : StandaloneAction τ} (hin : InTime s a)
    (h : StandaloneStep s a s') : s'.Sound := by
  cases h with
  | @fail task hstop =>
    refine ⟨hs.outline, hs.left, ?_, hs.joined⟩
    show (s.enqueued ++ [task]).Perm (s.queue.pushed ++ (s.failed ++ [task]) ++ s.checked)
    have hlast : (s.checked ++ [task]).Perm ([task] ++ s.checked) := List.perm_append_comm
    have hall := hs.tasks.append_right [task]
    rw [List.append_assoc] at hall
    rw [← List.append_assoc s.queue.pushed, List.append_assoc]
    exact hall.trans (hlast.append_left _)
  | @check task hstop =>
    refine ⟨hs.outline, hs.left, ?_, hs.joined⟩
    show (s.enqueued ++ [task]).Perm (s.queue.pushed ++ s.failed ++ (s.checked ++ [task]))
    rw [← List.append_assoc]
    exact hs.tasks.append_right [task]
  | @push task queue htask hqueue =>
    have hleft := left_of_step hqueue hs.left fun _ _ => hin
    have houtline := workerLoop.outline.step_inv hqueue hs.outline
    cases hqueue with
    | refuse hfull =>
      obtain ⟨n, hn, -⟩ := hfull
      cases hn
    | push hfree =>
      refine ⟨houtline, hleft, ?_, hs.joined⟩
      -- the task goes from the calls into the queue
      have hchecked := List.perm_cons_erase htask
      have hmoved : (s.failed ++ s.checked).Perm (task :: (s.failed ++ s.checked.erase task)) :=
        (hchecked.append_left s.failed).trans List.perm_middle
      show s.enqueued.Perm (s.queue.pushed ++ [task] ++ s.failed ++ s.checked.erase task)
      have hall := hs.tasks
      rw [List.append_assoc] at hall
      rw [List.append_assoc, List.append_assoc]
      exact hall.trans (hmoved.append_left s.queue.pushed)
  | @queue _ b queue stopper hpush hqueue hstopper =>
    constructor
    · exact workerLoop.outline.step_inv hqueue hs.outline
    · exact left_of_step hqueue hs.left fun task htask => absurd htask (hpush task)
    · show s.enqueued.Perm (queue.pushed ++ s.failed ++ s.checked)
      rw [hqueue.pushed hpush]
      exact hs.tasks
    · exact fun hreturned => hqueue.ended (hs.joined (hstopper hreturned)) rfl
  | again hreturned => exact hs
  | join hdone => exact ⟨hs.outline, hs.left, hs.tasks, fun _ => hdone⟩

/-- Then the worker has drained the queue when it was joined. -/
theorem Sound.fulfilled (hs : s.Sound) (hreturned : s.stopper = .returned) : Fulfilled s := by
  have hdone := hs.joined hreturned
  have hempty : s.queue.queue = [] := by
    refine hs.left ?_
    rw [hdone]
    trivial
  obtain ⟨-, -, hran⟩ := hs.outline.exited hdone rfl
  rw [hempty, List.append_nil] at hran
  refine ⟨hempty, ?_⟩
  rw [hran]
  exact hs.tasks

theorem init_sound : Sound ({} : StandaloneWorker τ) where
  outline := workerLoop.outline.init_inv
  left := fun h => h.elim
  tasks := List.Perm.refl _
  joined := by simp

end StandaloneWorker

/-- The worker is not left blocked, in any run. -/
theorem worker_awake [DecidableEq τ] {s : StandaloneWorker τ} (actions : List (StandaloneAction τ))
    (h : Machine.run StandaloneWorker.step {} actions = some s) : ¬ s.queue.Stranded := by
  have hattended : s.queue.Attended := by
    refine Machine.run_invariant (I := fun s : StandaloneWorker τ => s.queue.Attended)
      (fun s a s' hs hstep => ?_) init_attended h
    cases StandaloneWorker.standalone_spec hstep with
    | push htask hqueue => exact hqueue.attended rfl hs
    | queue hpush hqueue hstopper => exact hqueue.attended rfl hs
    | fail hstop | check hstop | again hreturned | join hdone => exact hs
  exact hattended.expected.not_stranded

/-- **Standalone strands no task** in a run in which every task is pushed before the worker finds
the queue empty and leaves. -/
theorem inTime_fulfills [DecidableEq τ] {s : StandaloneWorker τ}
    (actions : List (StandaloneAction τ))
    (hin : Machine.Each StandaloneWorker.step InTime {} actions)
    (h : Machine.run StandaloneWorker.step {} actions = some s)
    (hreturned : s.stopper = .returned) :
    Fulfilled s :=
  (Machine.run_invariant_of_each (I := StandaloneWorker.Sound)
    (fun _ _ _ hs hin hstep => hs.step hin (StandaloneWorker.standalone_spec hstep))
    StandaloneWorker.init_sound hin h).fulfilled hreturned

/-- Two tasks, one of them pushed after `running_` was cleared, and one call after that. -/
def standaloneRun : List (StandaloneAction Nat) :=
  [.enqueue 1, .push 1, .enqueue 2, .stopWorker, .push 2, .enqueue 3, .work, .work, .work,
    .notifyAll, .work, .work, .work, .work, .work, .work, .join]

theorem inTime_fulfills_run : ∃ s, Machine.run StandaloneWorker.step {} standaloneRun = some s ∧
    Fulfilled s ∧ s.queue.ran = [1, 2] ∧ s.failed = [3] := by
  have hrun : Machine.run StandaloneWorker.step {} standaloneRun = some
      { queue := { control := .active .done, queue := [], stop := true, notifying := 2, waking := 0,
                   pushed := [1, 2], before := [1], ran := [1, 2] }
        checked := [], failed := [3], enqueued := [1, 2, 3], stopper := .returned } := rfl
  have hin : Machine.Each StandaloneWorker.step InTime {} standaloneRun := by decide
  exact ⟨_, hrun, inTime_fulfills standaloneRun hin hrun rfl, rfl, rfl⟩

/-- A caller finds `running_` set, and pushes when `stop_worker` has joined the worker. -/
theorem push_after_stop : ∃ s, Machine.run StandaloneWorker.step {} [.enqueue 1, .stopWorker,
    .work, .work, .work, .notifyAll, .join, .push 1] = some s ∧ s.stopper = .returned ∧
      s.queue.queue = [1] ∧ s.queue.ran = [] ∧ s.failed = [] ∧ s.step .work = none :=
  ⟨_, rfl, rfl, rfl, rfl, rfl, rfl⟩

end Bison
