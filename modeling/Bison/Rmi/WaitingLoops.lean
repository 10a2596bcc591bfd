import Bison.Lib.Monitor

/-!
# The loops that wait for tasks

Two threads wait for work behind a lock, and are told to stop by a flag beside it: the client's
`event_loop` (client.cpp) and the profiler's `writer_loop` (profiler_service.cpp). Both shutdown
paths set the flag without the lock.

- `timely_shutdown`: **main result**, when no shutdown's notify comes between a loop's test and its
  block, neither loop is left blocked, each task runs once and in order, and what was queued before
  the shutdown has run when the loop ends.
- `late_notify`: a notify that comes there is lost, and the loop stays blocked.
-/

namespace Bison

open Monitor

variable {τ : Type}

/-- Where `client::event_loop` is. -/
inductive EventLoop (τ : Type) where
  /-- At `event_queue_.wait`. -/
  | wait
  /-- At the lock under which it takes a task. -/
  | take
  | call (task : τ)
  | done

/-- `client::event_loop`. The flag is `!running_`. -/
def eventLoop : Consumer τ (EventLoop τ) where
  entry := .wait
  code
    | .wait => .wait .take
    | .take => .pop fun
      | some task => .call task
      | none => .done
    | .call task => .run task .wait
    | .done => .exit

/-- Where `profiler_service::writer_loop` is. `last`: in the `write_pending_blocks` behind the
loop. -/
inductive WriterLoop (τ : Type) where
  /-- At the head of the loop. -/
  | loop
  /-- At `pending_blocks_.wait`. -/
  | wait
  /-- In `write_pending_blocks`, at the lock. -/
  | write (last : Bool)
  /-- There with a block, at `append_to_file`. -/
  | append (last : Bool) (block : τ)
  | done

def kMaxQueuedTraceBlocks : Nat := 256

/-- `profiler_service::writer_loop`. The flag is `writer_stopping_`. -/
def writerLoop : Consumer τ (WriterLoop τ) where
  entry := .loop
  code
    | .loop => .load fun stopping => if stopping then .write true else .wait
    | .wait => .wait (.write false)
    | .write last => .pop fun
      | some block => .append last block
      | none => if last then .done else .loop
    | .append last block => .run block (.write last)
    | .done => .exit
  capacity := some kMaxQueuedTraceBlocks

/-- The event loop finds no task only after it was told to stop. -/
def eventLoop.outline : Outline (eventLoop (τ := τ)) where
  note
    | .wait | .call _ => .any
    | .take => .ready
    | .done => .drained
  hand
    | .call task => [task]
    | _ => []
  entry := ⟨rfl, rfl⟩
  fits
    | .wait => ⟨rfl, rfl, le_max_right _ _⟩
    | .take => ⟨rfl, fun | some _ => rfl | none => rfl, Nat.le_refl _, fun _ => Nat.le_refl _⟩
    | .call _ => ⟨rfl, rfl, Nat.le_refl _⟩
    | .done => ⟨rfl, rfl⟩

/-- The writer's last round starts after it was told to stop. -/
def writerLoop.outline : Outline (writerLoop (τ := τ)) where
  note
    | .loop | .wait | .write false | .append false _ => .any
    | .write true | .append true _ => .stopped
    | .done => .drained
  hand
    | .append _ block => [block]
    | _ => []
  entry := ⟨rfl, rfl⟩
  fits
    | .loop => ⟨rfl, fun | true => rfl | false => rfl, rfl, le_max_right _ _⟩
    | .wait => ⟨rfl, rfl, Nat.zero_le _⟩
    | .write true =>
      ⟨rfl, fun | some _ => rfl | none => rfl, Nat.le_refl _, fun _ => Nat.le_refl _⟩
    | .write false =>
      ⟨rfl, fun | some _ => rfl | none => rfl, Nat.le_refl _, fun _ => Nat.le_refl _⟩
    | .append true _ => ⟨rfl, rfl, Nat.le_refl _⟩
    | .append false _ => ⟨rfl, rfl, Nat.le_refl _⟩
    | .done => ⟨rfl, rfl⟩

/-- What a shutdown asks of a loop that waits. -/
structure ShutsDown {κ : Type} (c : Consumer τ κ) (s : State τ κ) : Prop where
  /-- It is not left blocked. -/
  awake : ¬ s.Stranded
  /-- It runs each task once, in queue order. -/
  once : s.ran <+: s.pushed
  /-- When it ends, it has run what was queued before. -/
  complete : ∀ pc, s.control = .active pc → c.code pc = .exit → s.before <+: s.ran

theorem shutsDown_of_timely {κ : Type} {c : Consumer τ κ} (o : Outline c)
    {as : List (Action τ)} {s : State τ κ} (hT : Machine.Each (step c) Timely c.init as)
    (h : Machine.run (step c) c.init as = some s) : ShutsDown c s where
  awake := not_stranded_of_timely hT h
  once := (o.run_inv h).in_order
  complete _ hpc hexit := ((o.run_inv h).exited hpc hexit).2.1

/-- **No lost shutdown wakeup.** In every run of the event loop, or of the writer, with its
producers and its shutdown paths, if no shutdown's notify comes between a failed test and the block
after it. -/
theorem timely_shutdown (actions : List (Action τ)) :
    (∀ s, Machine.Each (step eventLoop) Timely eventLoop.init actions →
      Machine.run (step eventLoop) eventLoop.init actions = some s → ShutsDown eventLoop s) ∧
    (∀ s, Machine.Each (step writerLoop) Timely writerLoop.init actions →
      Machine.run (step writerLoop) writerLoop.init actions = some s → ShutsDown writerLoop s) := by
  constructor
  · intro s hT h
    exact shutsDown_of_timely eventLoop.outline hT h
  · intro s hT h
    exact shutsDown_of_timely writerLoop.outline hT h

/-- Two tasks and a shutdown, to the end of the event loop. -/
def eventRun : List (Action Nat) :=
  [.consume, .consume, .push 1, .push 2, .notify, .store, .consume, .consume, .wake, .consume,
    .consume, .consume, .consume, .consume, .consume]

/-- The same for the writer. -/
def writerRun : List (Action Nat) :=
  [.push 1, .store, .consume, .push 2, .wake, .consume, .consume, .consume, .consume, .consume]

theorem timely_shutdown_runs :
    (∃ s, Machine.run (step eventLoop) eventLoop.init eventRun = some s ∧
      ShutsDown eventLoop s ∧ s.ran = [1, 2] ∧ s.control = .active .done) ∧
    (∃ s, Machine.run (step writerLoop) writerLoop.init writerRun = some s ∧
      ShutsDown writerLoop s ∧ s.ran = [1, 2] ∧ s.control = .active .done) := by
  constructor
  · have hrun : Machine.run (step eventLoop) eventLoop.init eventRun = some
        { control := .active .done, queue := [], stop := true, notifying := 1, waking := 0
          pushed := [1, 2], before := [1, 2], ran := [1, 2] } := rfl
    have htimely : Machine.Each (step eventLoop) Timely eventLoop.init eventRun := by decide
    exact ⟨_, hrun, (timely_shutdown eventRun).1 _ htimely hrun, rfl, rfl⟩
  · have hrun : Machine.run (step writerLoop) writerLoop.init writerRun = some
        { control := .active .done, queue := [], stop := true, notifying := 2, waking := 0
          pushed := [1, 2], before := [1], ran := [1, 2] } := rfl
    have htimely : Machine.Each (step writerLoop) Timely writerLoop.init writerRun := by decide
    exact ⟨_, hrun, (timely_shutdown writerRun).2 _ htimely hrun, rfl, rfl⟩

/-- The shutdown sets the flag and notifies while the loop is between its test and its block. The
loop blocks, and only one more task or one more shutdown can wake it. -/
theorem late_notify :
    (∃ s, Machine.run (step (eventLoop (τ := Nat))) eventLoop.init
        [.consume, .store, .wake, .consume] = some s ∧ s.Stranded ∧
      ∀ a, (∀ task, a ≠ .push task) → a ≠ .store → step eventLoop s a = none) ∧
    (∃ s, Machine.run (step (writerLoop (τ := Nat))) writerLoop.init
        [.consume, .consume, .store, .wake, .consume] = some s ∧ s.Stranded ∧
      ∀ a, (∀ task, a ≠ .push task) → a ≠ .store → step writerLoop s a = none) := by
  constructor
  · refine ⟨_, rfl, ⟨rfl, ⟨_, rfl⟩, rfl, rfl⟩, fun a hpush hstore => ?_⟩
    exact State.Stranded.stuck ⟨rfl, ⟨_, rfl⟩, rfl, rfl⟩ hpush hstore
  · refine ⟨_, rfl, ⟨rfl, ⟨_, rfl⟩, rfl, rfl⟩, fun a hpush hstore => ?_⟩
    exact State.Stranded.stuck ⟨rfl, ⟨_, rfl⟩, rfl, rfl⟩ hpush hstore

end Bison
