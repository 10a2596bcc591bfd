import Bison.Lib.Machine
import Mathlib.Data.List.Infix
import Mathlib.Order.MinMax

/-!
# A consumer that waits on a monitor

A queue behind a lock with a condition variable, and a flag beside them that the lock does not
protect. One consumer waits until the queue has a task or the flag is set, and takes tasks out.
Producers push a task and then notify; other parties set the flag and then notify. A notify wakes
the consumer only when it is blocked already.

- `Monitor.Consumer`: the consumer as a program of five operations.
- `Monitor.step`, `Monitor.step_spec`: one step of any party, and what it can be.
- `Monitor.not_stranded_of_timely`, `Monitor.Step.attended`: when the notify after the flag is not
  missed.
- `Monitor.Outline`: assertions at the points of the program that fit together. A consumer that
  has an outline runs each task once and in order (`Outline.Inv.in_order`), and leaves only when it
  has run what was pushed before the flag was set (`Outline.Inv.exited`).
-/

namespace Monitor

variable {τ κ : Type}

/-- What the consumer does at a point of its program. -/
inductive Op (τ κ : Type) where
  /-- Read the flag. -/
  | load (next : Bool → κ)
  /-- Wait until the queue has a task or the flag is set. -/
  | wait (next : κ)
  /-- Take the first task out of the queue. -/
  | pop (next : Option τ → κ)
  | run (task : τ) (next : κ)
  | exit

/-- The program of the consumer, and what its queue is like. -/
structure Consumer (τ κ : Type) where
  entry : κ
  code : κ → Op τ κ
  /-- A push to a queue of this length is refused. -/
  capacity : Option Nat := none
  /-- The flag is set with the lock held. -/
  locked : Bool := false

/-- Where the consumer is. `tested`: in the wait at `pc`, with the lock held and the test failed. -/
inductive Control (κ : Type) where
  | active (pc : κ)
  | tested (pc : κ)
  | blocked (pc : κ)

namespace Control

def pc : Control κ → κ
  | .active pc | .tested pc | .blocked pc => pc

/-- What a notify makes of it: only a blocked consumer notices. -/
def notified : Control κ → Control κ
  | .blocked pc => .active pc
  | control => control

def HoldsLock (control : Control κ) : Prop :=
  ∃ pc, control = .tested pc

/-- The test has failed and the consumer has not been woken since. -/
def Waits (control : Control κ) : Prop :=
  ∀ pc, control ≠ .active pc

instance (control : Control κ) : Decidable control.HoldsLock :=
  match control with
  | .active _ => isFalse fun ⟨_, h⟩ => by cases h
  | .tested pc => isTrue ⟨pc, rfl⟩
  | .blocked _ => isFalse fun ⟨_, h⟩ => by cases h

@[simp] theorem pc_notified (control : Control κ) : control.notified.pc = control.pc := by
  cases control <;> rfl

theorem not_waits_active (pc : κ) : ¬ (Control.active pc).Waits :=
  fun h => h pc rfl

/-- What still waits after a notify held the lock, and missed it. -/
theorem HoldsLock.of_notified {control : Control κ} (h : control.notified.Waits) :
    control.HoldsLock := by
  cases control with
  | active pc => exact absurd h (not_waits_active pc)
  | tested pc => exact ⟨pc, rfl⟩
  | blocked pc => exact absurd h (not_waits_active pc)

theorem Waits.of_notified {control : Control κ} (h : control.notified.Waits) :
    control.Waits := by
  obtain ⟨pc, rfl⟩ := HoldsLock.of_notified h
  exact h

end Control

/-- `notifying` and `waking`: the producers and the other parties that have not notified yet.
`pushed`: every task that went into the queue; `before`: those that did before the flag was set. -/
structure State (τ κ : Type) where
  control : Control κ
  queue : List τ := []
  stop : Bool := false
  notifying : Nat := 0
  waking : Nat := 0
  pushed : List τ := []
  before : List τ := []
  ran : List τ := []

inductive Action (τ : Type) where
  /-- The consumer. -/
  | consume
  /-- A producer. -/
  | push (task : τ)
  | notify
  /-- A party that sets the flag. -/
  | store
  | wake

variable (c : Consumer τ κ)

def Consumer.init : State τ κ :=
  { control := .active c.entry }

/-- The consumer's program goes one operation on. -/
def Consumer.advance (s : State τ κ) (pc : κ) : Option (State τ κ) :=
  match c.code pc with
  | .load next => some { s with control := .active (next s.stop) }
  | .wait next =>
    if s.queue ≠ [] ∨ s.stop = true then some { s with control := .active next }
    else some { s with control := .tested pc }
  | .pop next =>
    match s.queue with
    | [] => some { s with control := .active (next none) }
    | task :: rest => some { s with control := .active (next (some task)), queue := rest }
  | .run task next => some { s with control := .active next, ran := s.ran ++ [task] }
  | .exit => none

/-- One step of one party. -/
def step (s : State τ κ) : Action τ → Option (State τ κ)
  | .consume =>
    match s.control with
    | .active pc => c.advance s pc
    | .tested pc => some { s with control := .blocked pc }
    | .blocked _ => none
  | .push task =>
    if s.control.HoldsLock then none
    else if ∃ n ∈ c.capacity, n ≤ s.queue.length then some s
    else some { s with
      queue := s.queue ++ [task]
      pushed := s.pushed ++ [task]
      notifying := s.notifying + 1 }
  | .notify =>
    if s.notifying = 0 then none
    else some { s with notifying := s.notifying - 1, control := s.control.notified }
  | .store =>
    if c.locked = true ∧ s.control.HoldsLock then none
    else some { s with
      stop := true
      before := if s.stop then s.before else s.pushed
      waking := s.waking + 1 }
  | .wake =>
    if s.waking = 0 then none
    else some { s with waking := s.waking - 1, control := s.control.notified }

/-- What a step can be. -/
inductive Step (s : State τ κ) : Action τ → State τ κ → Prop where
  | load {pc : κ} {next : Bool → κ} (hpc : s.control = .active pc) (hop : c.code pc = .load next) :
    Step s .consume { s with control := .active (next s.stop) }
  | pass {pc next : κ} (hpc : s.control = .active pc) (hop : c.code pc = .wait next)
    (hready : s.queue ≠ [] ∨ s.stop = true) : Step s .consume { s with control := .active next }
  | test {pc next : κ} (hpc : s.control = .active pc) (hop : c.code pc = .wait next)
    (hqueue : s.queue = []) (hstop : s.stop = false) :
    Step s .consume { s with control := .tested pc }
  | block {pc : κ} (hpc : s.control = .tested pc) :
    Step s .consume { s with control := .blocked pc }
  | popNone {pc : κ} {next : Option τ → κ} (hpc : s.control = .active pc)
    (hop : c.code pc = .pop next) (hqueue : s.queue = []) :
    Step s .consume { s with control := .active (next none) }
  | popSome {pc : κ} {next : Option τ → κ} {task : τ} {rest : List τ}
    (hpc : s.control = .active pc) (hop : c.code pc = .pop next) (hqueue : s.queue = task :: rest) :
    Step s .consume { s with control := .active (next (some task)), queue := rest }
  | run {pc : κ} {task : τ} {next : κ} (hpc : s.control = .active pc)
    (hop : c.code pc = .run task next) :
    Step s .consume { s with control := .active next, ran := s.ran ++ [task] }
  | refuse {task : τ} (hfull : ∃ n ∈ c.capacity, n ≤ s.queue.length) : Step s (.push task) s
  | push {task : τ} (hfree : ¬ s.control.HoldsLock) :
    Step s (.push task) { s with
      queue := s.queue ++ [task]
      pushed := s.pushed ++ [task]
      notifying := s.notifying + 1 }
  | notify (hn : s.notifying ≠ 0) :
    Step s .notify { s with notifying := s.notifying - 1, control := s.control.notified }
  | store (hfree : c.locked = true → ¬ s.control.HoldsLock) :
    Step s .store { s with
      stop := true
      before := if s.stop then s.before else s.pushed
      waking := s.waking + 1 }
  | wake (hn : s.waking ≠ 0) :
    Step s .wake { s with waking := s.waking - 1, control := s.control.notified }

variable {c} {s s' : State τ κ} {a : Action τ}

theorem advance_spec {pc : κ} (hpc : s.control = .active pc) (h : c.advance s pc = some s') :
    Step c s .consume s' := by
  unfold Consumer.advance at h
  split at h
  next next hop =>
    cases h
    exact .load hpc hop
  next next hop =>
    split at h
    next hready =>
      cases h
      exact .pass hpc hop hready
    next hready =>
      cases h
      simp only [ne_eq, not_or, Decidable.not_not, Bool.not_eq_true] at hready
      exact .test hpc hop hready.1 hready.2
  next next hop =>
    split at h
    next hqueue =>
      cases h
      exact .popNone hpc hop hqueue
    next task rest hqueue =>
      cases h
      exact .popSome hpc hop hqueue
  next task next hop =>
    cases h
    exact .run hpc hop
  next => cases h

theorem step_spec (h : step c s a = some s') : Step c s a s' := by
  cases a with
  | consume =>
    simp only [step] at h
    split at h
    next pc hpc => exact advance_spec hpc h
    next pc hpc =>
      cases h
      exact .block hpc
    next => cases h
  | push task =>
    simp only [step] at h
    split at h
    · cases h
    next hfree =>
      split at h
      next hfull =>
        cases h
        exact .refuse hfull
      · cases h
        exact .push hfree
  | notify =>
    simp only [step] at h
    split at h
    · cases h
    next hn =>
      cases h
      exact .notify hn
  | store =>
    simp only [step] at h
    split at h
    · cases h
    next hfree =>
      cases h
      exact .store fun hlocked hlock => hfree ⟨hlocked, hlock⟩
  | wake =>
    simp only [step] at h
    split at h
    · cases h
    next hn =>
      cases h
      exact .wake hn

/-- A consumer whose program has ended stays where it is. -/
theorem Step.ended (h : Step c s a s') {pc : κ} (hpc : s.control = .active pc)
    (hexit : c.code pc = .exit) : s'.control = .active pc := by
  cases h with
  | load hpc' hop | pass hpc' hop hready | test hpc' hop hqueue hstop | popNone hpc' hop hqueue
  | popSome hpc' hop hqueue | run hpc' hop =>
    rw [hpc] at hpc'
    cases hpc'
    rw [hexit] at hop
    cases hop
  | block hpc' =>
    rw [hpc] at hpc'
    cases hpc'
  | refuse hfull | push hfree | store hfree => exact hpc
  | notify hn | wake hn =>
    show s.control.notified = .active pc
    rw [hpc]
    rfl

/-- Only a push adds to what was pushed. -/
theorem Step.pushed (h : Step c s a s') (hpush : ∀ task, a ≠ .push task) :
    s'.pushed = s.pushed := by
  cases h with
  | push hfree => exact absurd rfl (hpush _)
  | _ => rfl

/-! ## Lost wakeups -/

/-- The flag is set, the consumer is blocked, and nobody is about to notify. -/
structure State.Stranded (s : State τ κ) : Prop where
  stop : s.stop = true
  blocked : ∃ pc, s.control = .blocked pc
  notifying : s.notifying = 0
  waking : s.waking = 0

/-- Such a consumer stays blocked, unless one more task is pushed or the flag is set once more. -/
theorem State.Stranded.stuck (h : s.Stranded) (hpush : ∀ task, a ≠ .push task)
    (hstore : a ≠ .store) : step c s a = none := by
  obtain ⟨pc, hpc⟩ := h.blocked
  cases a with
  | consume => simp only [step, hpc]
  | push task => exact absurd rfl (hpush task)
  | notify => simp only [step, h.notifying, if_true]
  | store => exact absurd rfl hstore
  | wake => simp only [step, h.waking, if_true]

/-- The notify after the flag was set does not come between the consumer's test and its block. -/
def Timely (s : State τ κ) : Action τ → Prop
  | .wake => ¬ s.control.HoldsLock
  | _ => True

instance (s : State τ κ) (a : Action τ) : Decidable (Timely s a) :=
  match a with
  | .wake => inferInstanceAs (Decidable (¬ s.control.HoldsLock))
  | .consume | .push _ | .notify | .store => .isTrue trivial

/-- Somebody is about to wake a consumer that waits although the flag is set. -/
def State.Expected (s : State τ κ) : Prop :=
  s.control.Waits → s.stop = true → 0 < s.waking

theorem State.Expected.not_stranded (h : s.Expected) : ¬ s.Stranded := by
  intro hs
  obtain ⟨pc, hpc⟩ := hs.blocked
  have hwaits : s.control.Waits := by
    intro pc' hpc'
    rw [hpc] at hpc'
    cases hpc'
  have hpos := h hwaits hs.stop
  rw [hs.waking] at hpos
  exact Nat.lt_irrefl 0 hpos

/-- Every step but a late wake keeps it. -/
theorem Step.expected (h : Step c s a s') (hs : s.Expected)
    (hwake : a = .wake → s.control.notified.Waits → s.stop = false) : s'.Expected := by
  cases h with
  | load hpc hop | pass hpc hop hready | popNone hpc hop hqueue | popSome hpc hop hqueue
  | run hpc hop =>
    intro hwaits
    exact absurd hwaits (Control.not_waits_active _)
  | test hpc hop hqueue hstop =>
    -- the flag was just found unset
    intro _ hset
    rw [hstop] at hset
    cases hset
  | block hpc =>
    intro _ hset
    refine hs (fun pc' hpc' => ?_) hset
    rw [hpc] at hpc'
    cases hpc'
  | refuse hfull => exact hs
  | push hfree => exact hs
  | notify hn => exact fun hwaits hset => hs hwaits.of_notified hset
  | store hfree => exact fun _ _ => Nat.succ_pos _
  | wake hn =>
    intro hwaits hset
    have hunset := hwake rfl hwaits
    rw [hunset] at hset
    cases hset

theorem init_expected : c.init.Expected :=
  fun hwaits => absurd hwaits (Control.not_waits_active _)

/-- No wakeup is lost when none comes between a test and a block. -/
theorem not_stranded_of_timely {as : List (Action τ)}
    (hT : Machine.Each (step c) Timely c.init as)
    (h : Machine.run (step c) c.init as = some s) : ¬ s.Stranded := by
  have hrun : s.Expected := by
    refine Machine.run_invariant_of_each (fun s a s' hs hT hstep => ?_) init_expected hT h
    refine (step_spec hstep).expected hs ?_
    rintro rfl hwaits
    exact absurd (Control.HoldsLock.of_notified hwaits) (show ¬ s.control.HoldsLock from hT)
  exact hrun.not_stranded

/-- The flag is not set while the consumer waits, unless somebody is about to wake it and the
lock is free. -/
theorem Step.unlocked (hl : c.locked = true) (h : Step c s a s')
    (hs : s.control.HoldsLock → s.stop = false) : s'.control.HoldsLock → s'.stop = false := by
  cases h with
  | load hpc hop | pass hpc hop hready | popNone hpc hop hqueue | popSome hpc hop hqueue
  | run hpc hop | block hpc =>
    rintro ⟨pc, hpc'⟩
    cases hpc'
  | test hpc hop hqueue hstop => exact fun _ => hstop
  | refuse hfull => exact hs
  | push hfree => exact hs
  | store hfree => exact fun hlock => absurd hlock (hfree hl)
  | notify hn | wake hn =>
    rintro ⟨pc, hpc'⟩
    refine hs ⟨pc, ?_⟩
    cases hcontrol : s.control <;> simp_all [Control.notified]

/-- A consumer that waits is noticed, where the flag is set with the lock held. -/
structure State.Attended (s : State τ κ) : Prop where
  expected : s.Expected
  unlocked : s.control.HoldsLock → s.stop = false

theorem init_attended : c.init.Attended where
  expected := init_expected
  unlocked _ := rfl

theorem Step.attended (hl : c.locked = true) (h : Step c s a s') (hs : s.Attended) :
    s'.Attended where
  expected := h.expected hs.expected fun _ hwaits =>
    hs.unlocked (Control.HoldsLock.of_notified hwaits)
  unlocked := h.unlocked hl hs.unlocked

/-! ## Outlines -/

/-- What the consumer knows at a point. Each of them tells what the one before it does. -/
inductive Note where
  | any
  /-- The queue has a task or the flag is set. -/
  | ready
  /-- The flag is set. -/
  | stopped
  /-- And what was pushed before it was set has been run. -/
  | drained

namespace Note

def Holds : Note → State τ κ → Prop
  | .any, _ => True
  | .ready, s => s.queue ≠ [] ∨ s.stop = true
  | .stopped, s => s.stop = true
  | .drained, s => s.stop = true ∧ s.before <+: s.ran

/-- How much a note tells. -/
def rank : Note → Nat
  | .any => 0
  | .ready => 1
  | .stopped => 2
  | .drained => 3

/-- What is left of it when a task is taken out of the queue. -/
def kept : Note → Note
  | .ready => .any
  | note => note

/-- What the consumer knows when it has found the queue empty. -/
def emptied : Note → Note
  | .any => .any
  | _ => .drained

/-- A note tells what those below it do. -/
theorem Holds.of_rank_le {m n : Note} {s : State τ κ} (h : n.Holds s) (hle : m.rank ≤ n.rank) :
    m.Holds s := by
  cases m with
  | any => exact trivial
  | ready =>
    cases n with
    | any => exact absurd hle (by decide)
    | ready => exact h
    | stopped => exact Or.inr h
    | drained => exact Or.inr h.1
  | stopped =>
    cases n with
    | any | ready => exact absurd hle (by decide)
    | stopped => exact h
    | drained => exact h.1
  | drained =>
    cases n with
    | any | ready | stopped => exact absurd hle (by decide)
    | drained => exact h

theorem Holds.of_rank_le_max {m n k : Note} {s : State τ κ} (hn : n.Holds s) (hk : k.Holds s)
    (hle : m.rank ≤ max n.rank k.rank) : m.Holds s := by
  rcases le_max_iff.1 hle with hle | hle
  · exact hn.of_rank_le hle
  · exact hk.of_rank_le hle

theorem Holds.moved {n : Note} {s : State τ κ} (h : n.Holds s) (control : Control κ) :
    n.Holds { s with control := control } := by
  cases n <;> exact h

/-- No other party takes a note away. -/
theorem Holds.stable {n : Note} {s s' : State τ κ} (h : n.Holds s)
    (hqueue : s.queue ≠ [] → s'.queue ≠ []) (hstop : s.stop = true → s'.stop = true)
    (hbefore : s.stop = true → s'.before = s.before) (hran : s.ran <+: s'.ran) : n.Holds s' := by
  cases n with
  | any => exact trivial
  | ready => exact h.imp hqueue hstop
  | stopped => exact hstop h
  | drained =>
    refine ⟨hstop h.1, ?_⟩
    rw [hbefore h.1]
    exact h.2.trans hran

/-- Nor does the consumer, but for one that it used up. -/
theorem Holds.kept {n : Note} {s s' : State τ κ} (h : n.Holds s)
    (hstop : s'.stop = s.stop) (hbefore : s'.before = s.before) (hran : s'.ran = s.ran) :
    n.kept.Holds s' := by
  cases n with
  | any | ready => exact trivial
  | stopped => exact hstop.trans h
  | drained =>
    refine ⟨hstop.trans h.1, ?_⟩
    rw [hbefore, hran]
    exact h.2

end Note

/-- The assertions fit the operation at `pc`: `hand` is the task it holds there. -/
def Op.Fits (note : κ → Note) (hand : κ → List τ) (pc : κ) : Op τ κ → Prop
  | .load next =>
    hand pc = [] ∧ (∀ b, hand (next b) = []) ∧ note (next false) = .any ∧
      (note (next true)).rank ≤ max (note pc).rank Note.stopped.rank
  | .wait next =>
    hand pc = [] ∧ hand next = [] ∧ (note next).rank ≤ max (note pc).rank Note.ready.rank
  | .pop next =>
    hand pc = [] ∧ (∀ task, hand (next task) = task.toList) ∧
      (note (next none)).rank ≤ (note pc).emptied.rank ∧
      ∀ task, (note (next (some task))).rank ≤ (note pc).kept.rank
  | .run task next => hand pc = [task] ∧ hand next = [] ∧ (note next).rank ≤ (note pc).rank
  | .exit => hand pc = [] ∧ note pc = .drained

/-- Assertions at the points of a program that fit its operations. -/
structure Outline (c : Consumer τ κ) where
  note : κ → Note
  hand : κ → List τ
  entry : note c.entry = .any ∧ hand c.entry = []
  fits : ∀ pc, (c.code pc).Fits note hand pc

namespace Outline

/-- The assertions at the point where the consumer is, and where every task is. -/
structure Inv (o : Outline c) (s : State τ κ) : Prop where
  note : (o.note s.control.pc).Holds s
  tasks : s.ran ++ o.hand s.control.pc ++ s.queue = s.pushed
  before : s.before <+: s.pushed

theorem init_inv (o : Outline c) : o.Inv c.init where
  note := by
    show (o.note c.entry).Holds _
    rw [o.entry.1]
    exact trivial
  tasks := by
    show [] ++ o.hand c.entry ++ [] = []
    rw [o.entry.2]
    rfl
  before := List.nil_prefix

/-- A step of another party leaves the consumer's place, and takes nothing. -/
theorem Inv.other {o : Outline c} (hs : o.Inv s) {added : List τ}
    (hpc : s'.control.pc = s.control.pc) (hqueue : s'.queue = s.queue ++ added)
    (hpushed : s'.pushed = s.pushed ++ added) (hran : s'.ran = s.ran)
    (hstop : s.stop = true → s'.stop = true) (hbefore : s'.before <+: s'.pushed)
    (hkept : s.stop = true → s'.before = s.before) : o.Inv s' where
  note := by
    rw [hpc]
    refine hs.note.stable (fun hne => ?_) hstop hkept ?_
    · rw [hqueue]
      exact List.append_ne_nil_of_left_ne_nil hne _
    · rw [hran]
  tasks := by rw [hpc, hran, hqueue, hpushed, ← List.append_assoc, hs.tasks]
  before := hbefore

theorem Inv.idle {o : Outline c} (hs : o.Inv s) {control : Control κ}
    (hpc : control.pc = s.control.pc) (notifying waking : Nat) :
    o.Inv { s with control := control, notifying := notifying, waking := waking } :=
  hs.other hpc (List.append_nil _).symm (List.append_nil _).symm rfl id hs.before fun _ => rfl

/-- What was pushed has been run when the consumer finds the queue empty. -/
theorem Inv.ran_eq {o : Outline c} (hs : o.Inv s) (hqueue : s.queue = [])
    (hhand : o.hand s.control.pc = []) : s.ran = s.pushed := by
  have htasks := hs.tasks
  rw [hqueue, hhand, List.append_nil, List.append_nil] at htasks
  exact htasks

/-- So it is drained if it knows that the queue had a task or the flag was set. -/
theorem Inv.emptied {o : Outline c} (hs : o.Inv s) (hqueue : s.queue = [])
    (hhand : o.hand s.control.pc = []) : (o.note s.control.pc).emptied.Holds s := by
  have hran : s.before <+: s.ran := by
    rw [hs.ran_eq hqueue hhand]
    exact hs.before
  have hnote := hs.note
  cases h : o.note s.control.pc with
  | any => exact trivial
  | ready =>
    rw [h] at hnote
    exact ⟨hnote.resolve_left fun hne => hne hqueue, hran⟩
  | stopped =>
    rw [h] at hnote
    exact ⟨hnote, hran⟩
  | drained =>
    rw [h] at hnote
    exact hnote

theorem step_inv (o : Outline c) (h : Step c s a s') (hs : o.Inv s) : o.Inv s' := by
  cases h with
  | @load pc next hpc hop =>
    have hfits := o.fits pc
    rw [hop] at hfits
    obtain ⟨hhand, hnext, hfalse, htrue⟩ := hfits
    have hnote := hs.note
    have htasks := hs.tasks
    rw [hpc] at hnote htasks
    refine ⟨?_, ?_, hs.before⟩
    · refine Note.Holds.moved ?_ _
      show (o.note (next s.stop)).Holds s
      cases hstop : s.stop with
      | false =>
        rw [hfalse]
        exact trivial
      | true => exact hnote.of_rank_le_max (k := .stopped) hstop htrue
    · show s.ran ++ o.hand (next s.stop) ++ s.queue = s.pushed
      rw [hnext, ← hhand]
      exact htasks
  | @pass pc next hpc hop hready =>
    have hfits := o.fits pc
    rw [hop] at hfits
    obtain ⟨hhand, hnext, hle⟩ := hfits
    have hnote := hs.note
    have htasks := hs.tasks
    rw [hpc] at hnote htasks
    refine ⟨(hnote.of_rank_le_max (k := .ready) hready hle).moved _, ?_, hs.before⟩
    show s.ran ++ o.hand next ++ s.queue = s.pushed
    rw [hnext, ← hhand]
    exact htasks
  | @test pc next hpc hop hqueue hstop =>
    exact hs.idle (by rw [hpc]; rfl) _ _
  | @block pc hpc =>
    exact hs.idle (by rw [hpc]; rfl) _ _
  | @popNone pc next hpc hop hqueue =>
    have hfits := o.fits pc
    rw [hop] at hfits
    obtain ⟨hhand, hnext, hnone, -⟩ := hfits
    have hemptied := hs.emptied hqueue (by rw [hpc]; exact hhand)
    have htasks := hs.tasks
    rw [hpc] at hemptied htasks
    refine ⟨(hemptied.of_rank_le hnone).moved _, ?_, hs.before⟩
    show s.ran ++ o.hand (next none) ++ s.queue = s.pushed
    rw [hnext, ← htasks]
    exact congrArg (s.ran ++ · ++ s.queue) hhand.symm
  | @popSome pc next task rest hpc hop hqueue =>
    have hfits := o.fits pc
    rw [hop] at hfits
    obtain ⟨hhand, hnext, -, hsome⟩ := hfits
    have hnote := hs.note
    have htasks := hs.tasks
    rw [hpc] at hnote htasks
    have hkept : (o.note pc).kept.Holds
        { s with control := .active (next (some task)), queue := rest } := hnote.kept rfl rfl rfl
    refine ⟨hkept.of_rank_le (hsome task), ?_, hs.before⟩
    -- the task goes from the queue into the hand
    show s.ran ++ o.hand (next (some task)) ++ rest = s.pushed
    have hpc_hand : o.hand (Control.active pc).pc = [] := hhand
    rw [hpc_hand, hqueue, List.append_nil] at htasks
    rw [hnext, ← htasks, List.append_assoc]
    rfl
  | @run pc task next hpc hop =>
    have hfits := o.fits pc
    rw [hop] at hfits
    obtain ⟨hhand, hnext, hle⟩ := hfits
    have hnote := hs.note
    have htasks := hs.tasks
    rw [hpc] at hnote htasks
    refine ⟨?_, ?_, hs.before⟩
    · refine (hnote.of_rank_le hle).stable id id (fun _ => rfl) ?_
      exact List.prefix_append _ _
    · show s.ran ++ [task] ++ o.hand next ++ s.queue = s.pushed
      rw [hnext, List.append_nil, ← hhand]
      exact htasks
  | refuse hfull => exact hs
  | push hfree =>
    exact hs.other rfl rfl rfl rfl id (hs.before.trans (List.prefix_append _ _)) fun _ => rfl
  | notify hn => exact hs.idle (Control.pc_notified _) _ _
  | store hfree =>
    refine hs.other rfl (List.append_nil _).symm (List.append_nil _).symm rfl (fun _ => rfl) ?_ ?_
    · show (if s.stop then s.before else s.pushed) <+: s.pushed
      split
      · exact hs.before
      · exact List.prefix_rfl
    · rintro hset
      exact if_pos hset
  | wake hn => exact hs.idle (Control.pc_notified _) _ _

theorem run_inv (o : Outline c) {as : List (Action τ)}
    (h : Machine.run (step c) c.init as = some s) : o.Inv s :=
  Machine.run_invariant (fun _ _ _ hs hstep => o.step_inv (step_spec hstep) hs) o.init_inv h

/-- Each task runs once, in the order of the pushes. -/
theorem Inv.in_order {o : Outline c} (hs : o.Inv s) : s.ran <+: s.pushed := by
  rw [← hs.tasks, List.append_assoc]
  exact List.prefix_append _ _

/-- What holds where the program ends. -/
theorem Inv.exited {o : Outline c} (hs : o.Inv s) {pc : κ} (hpc : s.control = .active pc)
    (hexit : c.code pc = .exit) : s.stop = true ∧ s.before <+: s.ran ∧
      s.ran ++ s.queue = s.pushed := by
  have hfits := o.fits pc
  rw [hexit] at hfits
  obtain ⟨hhand, hdrained⟩ := hfits
  have hnote := hs.note
  have htasks := hs.tasks
  rw [hpc] at hnote htasks
  rw [show o.note (Control.active pc).pc = .drained from hdrained] at hnote
  rw [show o.hand (Control.active pc).pc = [] from hhand, List.append_nil] at htasks
  exact ⟨hnote.1, hnote.2, htasks⟩

end Outline

end Monitor
